import WorkflowEngine.Proofs.Retries

/-! # The Delays of a Policy

    A policy starts from no delay and lets each delay follow from the one
    before. Its strategy only proposes: what counts is the proposal kept
    between bounds, so the delays never fall and stay within the range of the
    policy, whatever a product of floats comes to.
-/

namespace WorkflowEngine

/-! ## What a scheduler is given -/

namespace Command

variable {next : Duration → Duration} {c c' : Command} {failure : Failure}

/-- A retry waits for the delay that follows the last one. -/
theorem backoff_of_retry (h : c.beginAttempt.handleFailure next failure = .retry c') :
    c'.backoff = next c.backoff := by
  by_cases hagain : Attempt.isRetriable (some failure) ∧ c.beginAttempt.hasMoreRetries
  · rw [handleFailure_of_retriable hagain.1 hagain.2] at h
    cases h
    rfl
  · rw [handleFailure_of_last (not_and_or.mp hagain)] at h
    cases h

/-- A retry adds its delay to those that follow unless it is lost. -/
theorem delays_of_retry {script : Nat → Attempt} {lost : Nat → Bool}
    (hscript : script c.attempts = some failure)
    (hretry : c.beginAttempt.handleFailure next failure = .retry c') :
    (c.executeFrom next script lost).delays =
      c'.backoff :: if lost c'.retries then [] else (c'.executeFrom next script lost).delays := by
  rw [executeFrom]
  simp only [hscript]
  split
  · rename_i hfinish
    rw [hretry] at hfinish
    cases hfinish
  · rename_i hretry'
    rw [hretry] at hretry'
    cases hretry'
    split <;> rfl

theorem delays_of_last {script : Nat → Attempt} {lost : Nat → Bool}
    (hlast : ∀ failure, script c.attempts = some failure →
      ∀ c', c.beginAttempt.handleFailure next failure ≠ .retry c') :
    (c.executeFrom next script lost).delays = [] := by
  rw [executeFrom]
  simp only
  split
  · rfl
  · rename_i failure hscript
    split
    · rfl
    · rename_i c' hretry
      exact absurd hretry (hlast failure hscript c')

/-- The delays of a command follow from the one it has, whatever its attempts bring and
    whichever of its retries are lost. -/
theorem delays_follow (script : Nat → Attempt) (lost : Nat → Bool) (c : Command) :
    ∀ i d, (c.executeFrom next script lost).delays[i]? = some d →
      d = next^[i + 1] c.backoff := by
  induction c using executeFrom.induct next script lost with
  | case1 c hscript =>
    intro i d h
    rw [delays_of_last (by simp [hscript])] at h
    cases h
  | case2 c running failure hscript c' result hfinish =>
    intro i d h
    rw [delays_of_last (by simp_all [running])] at h
    cases h
  | case3 c running failure hscript c' hretry hlost =>
    intro i d h
    rw [delays_of_retry hscript hretry, if_pos hlost] at h
    cases i with
    | zero => exact (Option.some.inj h).symm.trans (backoff_of_retry hretry)
    | succ i => cases h
  | case4 c running failure hscript c' hretry hlost ih =>
    intro i d h
    rw [delays_of_retry hscript hretry, if_neg hlost] at h
    have hbackoff : c'.backoff = next c.backoff := backoff_of_retry hretry
    cases i with
    | zero => exact (Option.some.inj h).symm.trans hbackoff
    | succ i =>
      rw [Function.iterate_succ_apply, ← hbackoff]
      exact ih i d h

end Command

namespace Backoff

/-! ## One delay after the other -/

/-- The delay before the retry of the given number; none before the first attempt. -/
def delay (b : Backoff) (n : Nat) : Duration := b.next^[n] 0

variable {b : Backoff}

@[simp] theorem delay_zero (b : Backoff) : b.delay 0 = 0 := rfl

theorem delay_succ (b : Backoff) (n : Nat) : b.delay (n + 1) = b.next (b.delay n) :=
  Function.iterate_succ_apply' b.next n 0

/-- Stopping at a repeated delay loses nothing: the steps that are left would repeat it. -/
theorem settle_eq_iterate (b : Backoff) (n : Nat) (d : Duration) : b.settle n d = b.next^[n] d := by
  induction n generalizing d with
  | zero => rfl
  | succ n ih =>
    show (if b.next d = d then d else b.settle n (b.next d)) = b.next^[n + 1] d
    by_cases hrepeated : b.next d = d
    · rw [if_pos hrepeated, Function.iterate_fixed hrepeated]
    · rw [if_neg hrepeated, ih, Function.iterate_succ_apply]

theorem delayOf_eq_delay (b : Backoff) (attempt : Nat) :
    b.delayOf attempt = b.delay (attempt - 1 + 1) := by
  unfold delayOf delay
  rw [settle_eq_iterate, Function.iterate_succ_apply]

/-! ## Bounds -/

/-- What a policy makes of a proposal for the delay after the current one. -/
def bounded (b : Backoff) (proposal current : Duration) : Duration :=
  min (max (max proposal current) b.initial) b.longest

/-- Delays that start from none, each following from the one before by some proposal. -/
structure Admits (b : Backoff) (d : Nat → Duration) : Prop where
  start : d 0 = 0
  follows : ∀ i, ∃ proposal, d (i + 1) = b.bounded proposal (d i)

theorem admits_delay (b : Backoff) : b.Admits b.delay where
  start := rfl
  follows i := ⟨b.proposed (b.delay i), b.delay_succ i⟩

/-- Delays that never fall and stay within the range of a policy. An initial delay beyond
    the longest one counts as the longest. -/
structure KeepsTo (b : Backoff) (d : Nat → Duration) : Prop where
  grows : ∀ i, d i ≤ d (i + 1)
  atLeast : ∀ i, 1 ≤ i → min b.initial b.longest ≤ d i
  atMost : ∀ i, d i ≤ b.longest

theorem le_bounded {proposal current : Duration} (h : current ≤ b.longest) :
    current ≤ b.bounded proposal current := by
  have hproposal : current ≤ max proposal current := Nat.le_max_right _ _
  exact Nat.le_min.mpr ⟨Nat.le_trans hproposal (Nat.le_max_left _ _), h⟩

theorem min_le_bounded (b : Backoff) (proposal current : Duration) :
    min b.initial b.longest ≤ b.bounded proposal current :=
  Nat.le_min.mpr ⟨Nat.le_trans (Nat.min_le_left _ _) (Nat.le_max_right _ _),
    Nat.min_le_right _ _⟩

theorem Admits.keepsTo {d : Nat → Duration} (h : b.Admits d) : b.KeepsTo d := by
  have hmost : ∀ i, d i ≤ b.longest := by
    intro i
    cases i with
    | zero => rw [h.start]; exact Nat.zero_le _
    | succ i =>
      obtain ⟨proposal, hfollows⟩ := h.follows i
      rw [hfollows]
      exact Nat.min_le_right _ _
  refine ⟨?_, ?_, hmost⟩
  · intro i
    obtain ⟨proposal, hfollows⟩ := h.follows i
    rw [hfollows]
    exact le_bounded (hmost i)
  · intro i hi
    obtain ⟨j, rfl⟩ := Nat.exists_eq_add_of_le' hi
    obtain ⟨proposal, hfollows⟩ := h.follows j
    rw [hfollows]
    exact b.min_le_bounded proposal (d j)

/-! ## Closed forms -/

/-- A sum kept at the longest duration is cut off by the policy anyway. -/
theorem next_of_linear (hlongest : b.longest ≤ Duration.longest) (hlinear : b.strategy = .linear)
    (current : Duration) : b.next current = min (current + b.initial) b.longest := by
  have hcut : ∀ sum c first last longest : Nat, c ≤ sum → first ≤ sum →
      last ≤ longest → min (max (max (min sum longest) c) first) last = min sum last := by omega
  simp only [next, proposed, hlinear, Duration.saturatingAdd]
  exact hcut _ _ _ _ _ (Nat.le_add_right _ _) (Nat.le_add_left _ _) hlongest

theorem delay_of_linear (hlongest : b.longest ≤ Duration.longest) (hlinear : b.strategy = .linear)
    (n : Nat) : b.delay n = min (n * b.initial) b.longest := by
  induction n with
  | zero => simp
  | succ n ih =>
    have hcut : ∀ sum first last : Nat,
        min (min sum last + first) last = min (sum + first) last := by omega
    rw [delay_succ, next_of_linear hlongest hlinear, ih, Nat.succ_mul]
    exact hcut _ _ _

theorem delay_of_fixed (hfixed : b.strategy = .fixed) (n : Nat) :
    b.delay (n + 1) = min b.initial b.longest := by
  induction n with
  | zero =>
    rw [delay_succ]
    simp [next, proposed, hfixed]
  | succ n ih =>
    -- The delay is the initial one already, or the longest one if that is shorter.
    have hcut : ∀ first last : Nat,
        min (max (max first (min first last)) first) last = min first last := by omega
    rw [delay_succ, ih]
    simp only [next, proposed, hfixed]
    exact hcut _ _

/-- **The delays of a policy.** They never fall and keep to its range, also with any other
    proposals than those of its strategy. Looking for the first repeated delay finds the same
    ones, they are what a new command hands to its scheduler, and two strategies have them in
    closed form, in which no sum is cut off but by the policy. -/
theorem delays_in_range (b : Backoff) (hlongest : b.longest ≤ Duration.longest) :
    b.KeepsTo b.delay ∧
    (∀ d, b.Admits d → b.KeepsTo d) ∧
    (∀ attempt, 1 ≤ attempt → b.delayOf attempt = b.delay attempt) ∧
    b.delayOf 0 = b.delay 1 ∧
    (b.strategy = .linear → ∀ n, b.delay n = min (n * b.initial) b.longest) ∧
    (b.strategy = .fixed → ∀ n, 1 ≤ n → b.delay n = min b.initial b.longest) ∧
    (∀ script lost, ∀ c : Command, c.backoff = 0 →
      ∀ i d, (c.executeFrom b.next script lost).delays[i]? = some d → d = b.delay (i + 1)) := by
  refine ⟨b.admits_delay.keepsTo, fun d h => h.keepsTo, ?_, b.delayOf_eq_delay 0,
    fun hlinear => delay_of_linear hlongest hlinear, ?_, ?_⟩
  · intro attempt hattempt
    rw [delayOf_eq_delay, Nat.sub_add_cancel hattempt]
  · intro hfixed n hn
    obtain ⟨n, rfl⟩ := Nat.exists_eq_add_of_le' hn
    exact delay_of_fixed hfixed n
  · intro script lost c hc i d h
    have hfollows := c.delays_follow script lost i d h
    rwa [hc] at hfollows

/-- A policy whose delays would soon be longer than any duration. -/
def impatient : Backoff where
  strategy := .linear
  initial := Duration.longest - 1
  longest := Duration.longest

/-- The delays of such a policy end at the longest duration. -/
theorem impatient_delays :
    impatient.longest ≤ Duration.longest ∧ impatient.delay 1 = Duration.longest - 1 ∧
      impatient.delay 2 = Duration.longest ∧ impatient.delayOf 7 = Duration.longest := by
  obtain ⟨-, -, hdelayOf, -, hlinear, -, -⟩ := impatient.delays_in_range (Nat.le_refl _)
  refine ⟨Nat.le_refl _, ?_, ?_, ?_⟩
  · rw [hlinear rfl]
    decide
  · rw [hlinear rfl]
    decide
  · rw [hdelayOf 7 (by decide), hlinear rfl]
    decide

end Backoff

end WorkflowEngine
