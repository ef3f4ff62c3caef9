import WorkflowEngine.Number.Word
import WorkflowEngine.Remote.Execution
import Mathlib.Logic.Function.Iterate

/-! # Retrying Commands

    A command is attempted, and its failure either ends it or hands its next
    attempt to a scheduler, which lets it run when the delay is over.
    `CommandStage.step` takes these steps one by one, and tells of each what
    others notice: attempts, scheduled delays, and the result that the caller
    receives. What `Command.execute` does is the whole course of these steps,
    which is told here for every script of answers.

    What an answer means is listed here code by code (`successes`, `moot` and
    `passing`), apart from the classification that the strategy goes by.
-/

namespace WorkflowEngine

/-! ## What an answer means -/

namespace StatusCode

/-- The codes of a call whose effect is in place, now or from an earlier attempt. -/
def successes : List StatusCode := [ok, alreadyExists]

/-- The codes of a call whose target is gone. -/
def moot : List StatusCode := [notFound]

/-- The codes of a failure that may pass. -/
def passing : List StatusCode :=
  [cancelled, deadlineExceeded, resourceExhausted, aborted, unavailable, dataLoss]

variable {code : StatusCode}

theorem outcome_eq_success_iff : code.outcome = .success ↔ code ∈ successes := by
  cases code <;> decide

theorem outcome_eq_ignorableFailure_iff : code.outcome = .ignorableFailure ↔ code ∈ moot := by
  cases code <;> decide

theorem outcome_eq_retriable_iff : code.outcome = .retriable ↔ code ∈ passing := by
  cases code <;> decide

end StatusCode

namespace Attempt

/-- Whether the attempt failed with a code that another one may overcome. -/
def isRetriable : Attempt → Bool
  | some (.status code _) => code ∈ StatusCode.passing
  | _ => false

/-- The result of a command that this attempt ends. -/
def verdict (description : String) : Attempt → CommandResult
  | none => .ok .succeeded
  | some (.other message) => .error (.exception description message)
  | some (.status code _) =>
    if code ∈ StatusCode.successes then .ok .succeeded
    else if code ∈ StatusCode.moot then .ok .ignored
    else if code ∈ StatusCode.passing then .error (.retriesExhausted description code)
    else .error (.failed description code)

/-- The listed codes are those that the strategy takes for such. -/
theorem verdict_status (description : String) (code : StatusCode) (text : String) :
    verdict description (some (.status code text)) =
      match code.outcome with
      | .success => .ok .succeeded
      | .ignorableFailure => .ok .ignored
      | .retriable => .error (.retriesExhausted description code)
      | .fatal => .error (.failed description code) := by
  unfold verdict
  simp only [← StatusCode.outcome_eq_success_iff, ← StatusCode.outcome_eq_ignorableFailure_iff,
    ← StatusCode.outcome_eq_retriable_iff]
  cases code.outcome <;> rfl

theorem outcome_of_isRetriable {code : StatusCode} {text : String}
    (h : isRetriable (some (.status code text))) : code.outcome = .retriable :=
  StatusCode.outcome_eq_retriable_iff.mpr (of_decide_eq_true h)

theorem verdict_of_isRetriable {a : Attempt} (h : a.isRetriable) (description : String) :
    ∃ code text, a = some (.status code text) ∧
      a.verdict description = .error (.retriesExhausted description code) := by
  match a with
  | none => cases h
  | some (.other message) => cases h
  | some (.status code text) =>
    refine ⟨code, text, rfl, ?_⟩
    rw [verdict_status, outcome_of_isRetriable h]

end Attempt

namespace Command

variable {next : Duration → Duration} {c : Command} {failure : Failure}

/-- A failure that may pass uses up a retry. -/
theorem handleFailure_of_retriable (hretriable : Attempt.isRetriable (some failure))
    (hmore : c.hasMoreRetries) :
    c.handleFailure next failure = .retry (c.increaseBackoff next).scheduleRetry := by
  cases failure with
  | other message => cases hretriable
  | status code text =>
    have hcode : code.outcome = .retriable := Attempt.outcome_of_isRetriable hretriable
    simp [handleFailure, Failure.code?, hcode, hmore]

/-- Every other failure ends the command, and so does one that may pass once no
    retries are left. -/
theorem handleFailure_of_last
    (hlast : ¬ Attempt.isRetriable (some failure) ∨ ¬ c.hasMoreRetries) :
    c.handleFailure next failure =
      .finish (c.complete (Attempt.verdict c.description (some failure)))
        (Attempt.verdict c.description (some failure)) := by
  cases failure with
  | other message => rfl
  | status code text =>
    rw [Attempt.verdict_status]
    cases hcode : code.outcome with
    | retriable =>
      -- Then it can only be that no retries are left.
      have hpassing : code ∈ StatusCode.passing := StatusCode.outcome_eq_retriable_iff.mp hcode
      have hmore : c.hasMoreRetries = false := by
        simpa [Attempt.isRetriable, hpassing] using hlast
      simp [handleFailure, Failure.code?, hcode, hmore]
    | _ => simp [handleFailure, Failure.code?, hcode]

end Command

/-! ## The course of a command -/

/-- What others notice of a command. -/
inductive CommandEvent where
  /-- The attempt of the given number, from zero, is made. -/
  | attempted (number : Nat)
  /-- The scheduler is given the next attempt. -/
  | scheduled (delay : Duration)
  /-- The caller receives a result. -/
  | received (result : CommandResult)

/-- The delay of a scheduled attempt. -/
def CommandEvent.delay? : CommandEvent → Option Duration
  | scheduled delay => some delay
  | _ => none

/-- How far a command has come. -/
inductive CommandStage where
  /-- Its next attempt is due. -/
  | due (c : Command)
  /-- The scheduler holds its next attempt back. -/
  | waiting (c : Command)
  | ended (c : Command)

/-- What the caller receives from a step: the first result reported. -/
def Command.deliveries (before after : Command) : List CommandEvent :=
  if before.completion.isNone then after.completion.toList.map .received else []

namespace CommandStage

variable (next : Duration → Duration) (script : Nat → Attempt)

/-- One step of a command whose attempt number `n` brings `script n`. -/
def step : CommandStage → Option (List CommandEvent × CommandStage)
  | due c =>
    let running := c.beginAttempt
    match script c.attempts with
    | none =>
      let c' := running.complete (.ok .succeeded)
      some (.attempted c.attempts :: running.deliveries c', ended c')
    | some failure =>
      match running.handleFailure next failure with
      | .finish c' _ => some (.attempted c.attempts :: running.deliveries c', ended c')
      | .retry c' =>
        some (.attempted c.attempts :: running.deliveries c' ++ [.scheduled c'.backoff], waiting c')
  -- The scheduler runs what it was given once.
  | waiting c => some ([], due c)
  | ended _ => none

variable {next script} {c c' : Command} {failure : Failure} {result : CommandResult}

theorem step_of_success (hscript : script c.attempts = none) :
    (due c).step next script =
      some (.attempted c.attempts ::
          c.beginAttempt.deliveries (c.beginAttempt.complete (.ok .succeeded)),
        ended (c.beginAttempt.complete (.ok .succeeded))) := by
  simp [step, hscript]

theorem step_of_finish (hscript : script c.attempts = some failure)
    (hfinish : c.beginAttempt.handleFailure next failure = .finish c' result) :
    (due c).step next script =
      some (.attempted c.attempts :: c.beginAttempt.deliveries c', ended c') := by
  simp [step, hscript, hfinish]

theorem step_of_retry (hscript : script c.attempts = some failure)
    (hretry : c.beginAttempt.handleFailure next failure = .retry c') :
    (due c).step next script =
      some (.attempted c.attempts :: c.beginAttempt.deliveries c' ++ [.scheduled c'.backoff],
        waiting c') := by
  simp [step, hscript, hretry]

variable (next script)

/-- Any number of steps, with what is noticed of them. -/
inductive Runs : CommandStage → List CommandEvent → CommandStage → Prop
  | refl (s : CommandStage) : Runs s [] s
  | step {s s' t : CommandStage} {events rest : List CommandEvent} :
      s.step next script = some (events, s') → Runs s' rest t → Runs s (events ++ rest) t

namespace Runs

variable {next script} {s t u : CommandStage} {events rest : List CommandEvent} {c c' : Command}

theorem trans (h : Runs next script s events t) (h' : Runs next script t rest u) :
    Runs next script s (events ++ rest) u := by
  induction h with
  | refl _ => exact h'
  | step hstep _ ih =>
    rw [List.append_assoc]
    exact .step hstep (ih h')

theorem single (h : s.step next script = some (events, t)) : Runs next script s events t := by
  have hrun := Runs.step h (.refl t)
  rwa [List.append_nil] at hrun

/-- Steps leave no choice: a run to the end goes on from wherever another one
    has come. -/
theorem continued (h : Runs next script s events t) (hfinal : t.step next script = none)
    (h' : Runs next script s rest u) :
    ∃ more, events = rest ++ more ∧ Runs next script u more t := by
  induction h' generalizing events with
  | refl _ => exact ⟨events, rfl, h⟩
  | step hstep _ ih =>
    cases h with
    | refl _ =>
      rw [hstep] at hfinal
      cases hfinal
    | step hstep' hrest =>
      rw [hstep] at hstep'
      cases hstep'
      obtain ⟨more, rfl, hmore⟩ := ih hrest
      exact ⟨more, (List.append_assoc _ _ _).symm, hmore⟩

theorem final_unique (h : Runs next script s events t) (hfinal : t.step next script = none)
    (h' : Runs next script s rest u) (hfinal' : u.step next script = none) :
    rest = events ∧ u = t := by
  obtain ⟨more, rfl, hmore⟩ := h.continued hfinal h'
  -- Nothing goes on from where no step is left.
  cases hmore with
  | refl _ => exact ⟨(List.append_nil rest).symm, rfl⟩
  | step hstep _ =>
    rw [hfinal'] at hstep
    cases hstep

end Runs

end CommandStage

namespace Command

open CommandStage

variable {next : Duration → Duration} {script : Nat → Attempt}

/-- Only a delay is scheduled, not a result. -/
theorem delays_deliveries (before after : Command) (number : Nat) (events : List CommandEvent) :
    (.attempted number :: before.deliveries after ++ events).filterMap CommandEvent.delay? =
      events.filterMap CommandEvent.delay? := by
  have hnone : (before.deliveries after).filterMap CommandEvent.delay? = [] := by
    unfold deliveries
    split
    · cases after.completion <;> rfl
    · rfl
  rw [List.cons_append, List.filterMap_cons_none rfl, List.filterMap_append, hnone,
    List.nil_append]

/-- Executing a command takes all its steps, and its delays are those that the
    scheduler is given. -/
theorem executeFrom_runs (c : Command) :
    ∃ events, Runs next script (.due c) events
        (.ended (c.executeFrom next script fun _ => false).command) ∧
      (c.executeFrom next script fun _ => false).delays =
        events.filterMap CommandEvent.delay? := by
  induction c using executeFrom.induct next script (fun _ => false) with
  | case1 c hscript =>
    have hexecute : c.executeFrom next script (fun _ => false) =
        ⟨[], [], c.beginAttempt.complete (.ok .succeeded)⟩ := by
      rw [executeFrom]
      simp [hscript]
    rw [hexecute]
    refine ⟨_, .step (step_of_success hscript) (.refl _), ?_⟩
    rw [delays_deliveries]
    rfl
  | case2 c running failure hscript c' result hfinish =>
    have hexecute : c.executeFrom next script (fun _ => false) =
        ⟨[⟨running, failure, result⟩], [], c'⟩ := by
      rw [executeFrom]
      simp only [hscript]
      split <;> simp_all [running]
    rw [hexecute]
    refine ⟨_, .step (step_of_finish hscript hfinish) (.refl _), ?_⟩
    rw [delays_deliveries]
    rfl
  | case3 c running failure hscript c' hretry hlost =>
    -- No scheduled attempt is lost.
    cases hlost
  | case4 c running failure hscript c' hretry hlost ih =>
    obtain ⟨events, hruns, hdelays⟩ := ih
    have hexecute : c.executeFrom next script (fun _ => false) =
        ⟨⟨running, failure, .ok .retryScheduled⟩ ::
            (c'.executeFrom next script fun _ => false).failures,
          c'.backoff :: (c'.executeFrom next script fun _ => false).delays,
          (c'.executeFrom next script fun _ => false).command⟩ := by
      rw [executeFrom]
      simp only [hscript]
      split <;> simp_all [running]
    rw [hexecute]
    refine ⟨_, .step (step_of_retry hscript hretry) (.step rfl hruns), ?_⟩
    rw [List.append_assoc, delays_deliveries, hdelays]
    rfl

/-! ## Commands that are retried -/

/-- A new command after so many retries. -/
def afterRetries (next : Duration → Duration) (maxRetries : Nat) (description : String)
    (i : Nat) : Command where
  description
  maxRetries
  retries := i
  attempts := i
  backoff := next^[i] 0
  state := if i = 0 then .pending else .retryScheduled

variable {maxRetries i : Nat} {description : String}

/-- An attempt after which the command is tried again. -/
theorem step_afterRetries (hretriable : (script i).isRetriable) (hi : i < maxRetries) :
    (CommandStage.due (afterRetries next maxRetries description i)).step next script =
      some ([.attempted i, .scheduled (next^[i + 1] 0)],
        .waiting (afterRetries next maxRetries description (i + 1))) := by
  obtain ⟨code, text, hscript, -⟩ := Attempt.verdict_of_isRetriable hretriable description
  have hretry :
      (afterRetries next maxRetries description i).beginAttempt.handleFailure next
          (.status code text) =
        .retry (afterRetries next maxRetries description (i + 1)) := by
    rw [handleFailure_of_retriable (hscript ▸ hretriable) (decide_eq_true hi)]
    simp [afterRetries, beginAttempt, increaseBackoff, scheduleRetry,
      Function.iterate_succ_apply']
  exact step_of_retry hscript hretry

/-- The attempt that ends the command. -/
theorem step_last (hlast : ¬ (script i).isRetriable ∨ i = maxRetries) :
    (CommandStage.due (afterRetries next maxRetries description i)).step next script =
      some ([.attempted i, .received ((script i).verdict description)],
        .ended ((afterRetries next maxRetries description i).beginAttempt.complete
          ((script i).verdict description))) := by
  cases hscript : script i with
  | none => exact step_of_success hscript
  | some failure =>
    refine step_of_finish hscript (handleFailure_of_last ?_)
    rw [hscript] at hlast
    refine hlast.imp id fun hi => ?_
    simp [hasMoreRetries, afterRetries, beginAttempt, hi]

/-- What is noticed of so many attempts that are all tried again. -/
def retried (next : Duration → Duration) (n : Nat) : List CommandEvent :=
  (List.range n).flatMap fun i => [.attempted i, .scheduled (next^[i + 1] 0)]

theorem runs_retried {n : Nat} (hretriable : ∀ i < n, (script i).isRetriable)
    (hn : n ≤ maxRetries) :
    Runs next script (.due { description, maxRetries }) (retried next n)
      (.due (afterRetries next maxRetries description n)) := by
  induction n with
  | zero => exact .refl _
  | succ n ih =>
    have hbefore := ih (fun i hi => hretriable i (by omega)) (by omega)
    have hstep : (CommandStage.due (afterRetries next maxRetries description n)).step next script =
        some ([.attempted n, .scheduled (next^[n + 1] 0)],
          .waiting (afterRetries next maxRetries description (n + 1))) :=
      step_afterRetries (hretriable n (by omega)) (by omega)
    -- The scheduler hands the attempt back when its delay is over.
    have hwait : Runs next script (.waiting (afterRetries next maxRetries description (n + 1))) []
        (.due (afterRetries next maxRetries description (n + 1))) := .single rfl
    have hlast := hbefore.trans (.step hstep hwait)
    unfold retried at hlast ⊢
    rw [List.range_succ, List.flatMap_append]
    exact hlast

/-- What is noticed of a command that attempt number `last` ends. -/
def ending (next : Duration → Duration) (last : Nat) (result : CommandResult) :
    List CommandEvent :=
  retried next last ++ [.attempted last, .received result]

example : ending (· + 100) 2 (.ok .succeeded) =
    [.attempted 0, .scheduled 100, .attempted 1, .scheduled 200, .attempted 2,
      .received (.ok .succeeded)] := rfl

theorem delays_ending (last : Nat) (result : CommandResult) :
    (ending next last result).filterMap CommandEvent.delay? =
      (List.range last).map fun i => next^[i + 1] 0 := by
  unfold ending retried
  rw [List.filterMap_append, List.filterMap_flatMap, List.map_eq_flatMap]
  exact List.append_nil _

/-- How a new command comes to its end with attempt number `last`. -/
structure EndsWith (next : Duration → Duration) (maxRetries : Nat) (description : String)
    (script : Nat → Attempt) (last : Nat) (result : CommandResult) : Prop where
  /-- A further attempt is scheduled after each one but the last, after which the
      caller receives the result. -/
  course : Runs next script (.due { description, maxRetries }) (ending next last result)
    (.ended (execute next maxRetries description script).command)
  /-- Nothing else can happen, and nothing once the result is there: from
      wherever the command is, it comes to this end. -/
  only : ∀ events stage, Runs next script (.due { description, maxRetries }) events stage →
    ∃ more, ending next last result = events ++ more ∧
      Runs next script stage more (.ended (execute next maxRetries description script).command)
  outcome : (execute next maxRetries description script).command.outcome = result
  attempts : (execute next maxRetries description script).command.attempts = last + 1
  retries : (execute next maxRetries description script).command.retries = last
  /-- Each delay follows from the one before, and the first from zero. -/
  delays : (execute next maxRetries description script).delays =
    (List.range last).map fun i => next^[i + 1] 0
  /-- The counters of attempts and retries stay words. -/
  counted : last + 1 < words32

theorem endsWith {last : Nat} (hretries : maxRetries + 1 < words32) (hwithin : last ≤ maxRetries)
    (hbefore : ∀ i < last, (script i).isRetriable)
    (hlast : ¬ (script last).isRetriable ∨ last = maxRetries) :
    EndsWith next maxRetries description script last ((script last).verdict description) := by
  have hruns : Runs next script (.due { description, maxRetries })
      (ending next last ((script last).verdict description))
      (.ended ((afterRetries next maxRetries description last).beginAttempt.complete
        ((script last).verdict description))) :=
    (runs_retried hbefore hwithin).trans (.single (step_last hlast))
  obtain ⟨events, hexecute, hdelays⟩ :
      ∃ events, Runs next script (.due { description, maxRetries }) events
          (.ended (execute next maxRetries description script).command) ∧
        (execute next maxRetries description script).delays =
          events.filterMap CommandEvent.delay? :=
    executeFrom_runs { description, maxRetries }
  -- The steps leave no choice, so this is the run that was followed above.
  obtain ⟨rfl, hended⟩ := Runs.final_unique hruns rfl hexecute rfl
  have hcommand : (execute next maxRetries description script).command =
      (afterRetries next maxRetries description last).beginAttempt.complete
        ((script last).verdict description) := CommandStage.ended.inj hended
  exact {
    course := hexecute
    only := fun _ _ hrun => hexecute.continued rfl hrun
    outcome := by rw [hcommand]; rfl
    attempts := by rw [hcommand]; rfl
    retries := by rw [hcommand]; rfl
    delays := by rw [hdelays, delays_ending]
    counted := by omega }

/-- **Retrying a command.** It is attempted until an answer is not one that
    another attempt may overcome, which then is what its caller receives, or
    until its retries are used up, which the caller receives with the last code. -/
theorem retries_follow_answers (next : Duration → Duration) {maxRetries : Nat}
    (hretries : maxRetries + 1 < words32) (description : String) (script : Nat → Attempt) :
    (∀ last ≤ maxRetries, (∀ i < last, (script i).isRetriable) →
      ¬ (script last).isRetriable →
      EndsWith next maxRetries description script last ((script last).verdict description)) ∧
    ((∀ i ≤ maxRetries, (script i).isRetriable) →
      ∃ code text, script maxRetries = some (.status code text) ∧
        EndsWith next maxRetries description script maxRetries
          (.error (.retriesExhausted description code))) := by
  refine ⟨?_, ?_⟩
  · intro last hwithin hbefore hlast
    exact endsWith hretries hwithin hbefore (.inl hlast)
  · intro hall
    have hbefore : ∀ i < maxRetries, (script i).isRetriable :=
      fun i hi => hall i (Nat.le_of_lt hi)
    have hends : EndsWith next maxRetries description script maxRetries
        ((script maxRetries).verdict description) :=
      endsWith hretries (Nat.le_refl maxRetries) hbefore (.inr rfl)
    obtain ⟨code, text, hscript, hverdict⟩ :=
      Attempt.verdict_of_isRetriable (hall maxRetries (Nat.le_refl maxRetries)) description
    rw [hverdict] at hends
    exact ⟨code, text, hscript, hends⟩

/-- A service that first fails with every code that may pass, and then answers. -/
def recoveringService (answer : Attempt) (i : Nat) : Attempt :=
  match StatusCode.passing[i]? with
  | some code => some (.status code "try again")
  | none => answer

/-- Six retries are enough for a service that recovers: to succeed, to find that the job
    was completed or is gone, to be refused for good, or to get no answer. Five are not
    enough. -/
theorem recovering_service_answers :
    EndsWith (· + 100) 6 "CompleteJob" (recoveringService none) 6 (.ok .succeeded) ∧
      EndsWith (· + 100) 6 "CompleteJob"
        (recoveringService (some (.status .alreadyExists "job completed"))) 6 (.ok .succeeded) ∧
      EndsWith (· + 100) 6 "CompleteJob"
        (recoveringService (some (.status .notFound "no such job"))) 6 (.ok .ignored) ∧
      EndsWith (· + 100) 6 "CompleteJob"
        (recoveringService (some (.status .permissionDenied "not yours"))) 6
        (.error (.failed "CompleteJob" .permissionDenied)) ∧
      EndsWith (· + 100) 6 "CompleteJob" (recoveringService (some (.other "broken pipe"))) 6
        (.error (.exception "CompleteJob" "broken pipe")) ∧
      EndsWith (· + 100) 5 "CompleteJob" (recoveringService none) 5
        (.error (.retriesExhausted "CompleteJob" .dataLoss)) := by
  have hpassing : ∀ answer : Attempt, ∀ i < 6, (recoveringService answer i).isRetriable := by
    intro answer i hi
    have hlength : i < StatusCode.passing.length := hi
    unfold recoveringService
    rw [List.getElem?_eq_getElem hlength]
    exact decide_eq_true (List.getElem_mem hlength)
  have hanswers : ∀ answer : Attempt, ¬answer.isRetriable →
      EndsWith (· + 100) 6 "CompleteJob" (recoveringService answer) 6
        (answer.verdict "CompleteJob") := by
    intro answer hanswer
    have hends := (retries_follow_answers (· + 100) (by decide : 6 + 1 < words32) "CompleteJob"
      (recoveringService answer)).1
    exact hends 6 (Nat.le_refl 6) (hpassing answer) hanswer
  obtain ⟨code, text, hscript, hends⟩ := (retries_follow_answers (· + 100)
    (by decide : 5 + 1 < words32) "CompleteJob" (recoveringService none)).2
      fun i hi => hpassing none i (Nat.lt_succ_of_le hi)
  cases hscript
  exact ⟨hanswers none (by decide), hanswers _ (by decide), hanswers _ (by decide),
    hanswers _ (by decide), hanswers _ (by decide), hends⟩

end Command

end WorkflowEngine
