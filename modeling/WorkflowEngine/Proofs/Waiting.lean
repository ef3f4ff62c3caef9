import Mathlib.Data.List.Forall2
import WorkflowEngine.Proofs.Lineage
import WorkflowEngine.Proofs.Steps

/-! # Tokens Wait in the Order of the Log

    A token names no activation. A container that starts takes the oldest
    token of its workflow instance, whichever event left it there. What makes
    this the token of its own event is the order of the queue:

    * first the tokens of the active containers that are not handled yet and
      are still tracked,
    * then those of the containers that are still to be activated,

    both in the order of the log. Here is what each change of tokens, instances
    and log does to this order.
-/

namespace WorkflowEngine

/-! ## Who is going to take the tokens -/

namespace Contents

/-- The active containers of a workflow instance that are going to start. -/
def starting (c : Contents) (instanceKey : Key) (rs : List Record) : List Record :=
  rs.filter fun r => r.intent = .elementActivated ∧ r.value.instanceKey = instanceKey ∧
    (c.instance? r.key).isSome

/-- The containers of a workflow instance that are going to be activated. -/
def entering (instanceKey : Key) (rs : List Record) : List Record :=
  rs.filter fun r => r.intent = .elementActivating ∧ r.value.instanceKey = instanceKey

/-- The records that are going to take the tokens of a workflow instance, in
    this order. -/
def expecting (c : Contents) (instanceKey : Key) (rs : List Record) : List Record :=
  c.starting instanceKey rs ++ entering instanceKey rs

section Expecting

variable {c : Contents} {s : Key} {r : Record} {rs : List Record}

theorem starting_append (c : Contents) (s : Key) (rs rs' : List Record) :
    c.starting s (rs ++ rs') = c.starting s rs ++ c.starting s rs' := List.filter_append ..

theorem entering_append (s : Key) (rs rs' : List Record) :
    entering s (rs ++ rs') = entering s rs ++ entering s rs' := List.filter_append ..

theorem starting_cons_of_ne (h : r.intent ≠ .elementActivated) :
    c.starting s (r :: rs) = c.starting s rs := List.filter_cons_of_neg (by simp [h])

theorem starting_cons_of_tracked {i : ElementInstance} (h : r.intent = .elementActivated)
    (hinst : c.instance? r.key = some i) :
    c.starting s (r :: rs) = (if r.value.instanceKey = s then [r] else []) ++ c.starting s rs := by
  by_cases hs : r.value.instanceKey = s
  · rw [if_pos hs]
    exact List.filter_cons_of_pos (by simp [h, hs, hinst])
  · rw [if_neg hs]
    exact List.filter_cons_of_neg (by simp [hs])

theorem entering_cons_of_ne (h : r.intent ≠ .elementActivating) :
    entering s (r :: rs) = entering s rs := List.filter_cons_of_neg (by simp [h])

theorem entering_cons (h : r.intent = .elementActivating) :
    entering s (r :: rs) = (if r.value.instanceKey = s then [r] else []) ++ entering s rs := by
  by_cases hs : r.value.instanceKey = s
  · rw [if_pos hs]
    exact List.filter_cons_of_pos (by simp [h, hs])
  · rw [if_neg hs]
    exact List.filter_cons_of_neg (by simp [hs])

/-- Only what is tracked of the active containers matters. -/
theorem starting_congr {c' : Contents} (h : ∀ r ∈ rs, r.intent = .elementActivated →
      r.value.instanceKey = s → c'.instance? r.key = c.instance? r.key) :
    c'.starting s rs = c.starting s rs := by
  refine List.filter_congr fun r hr => ?_
  by_cases hintent : r.intent = .elementActivated
  · by_cases hs : r.value.instanceKey = s
    · rw [h r hr hintent hs]
    · simp [hs]
  · simp [hintent]

/-- Only the containers under its key start because an instance is tracked. -/
theorem starting_setInstance {k : Key}
    (h : ∀ b ∈ rs, b.intent = .elementActivated → b.key ≠ k)
    (i : Option ElementInstance) : (c.setInstance k i).starting s rs = c.starting s rs := by
  refine starting_congr fun b hb hintent _ => ?_
  rw [instance?_setInstance, if_neg (h b hb hintent)]

/-- A record takes a token of a workflow instance. -/
def Expects (c : Contents) (s : Key) (r : Record) : Prop :=
  r.value.instanceKey = s ∧ (r.intent = .elementActivating ∨
    r.intent = .elementActivated ∧ c.instance? r.key ≠ none)

theorem Expects.intent (h : c.Expects s r) :
    r.intent = .elementActivating ∨ r.intent = .elementActivated := h.2.imp_right And.left

theorem expecting_eq_nil (h : ∀ r ∈ rs, ¬c.Expects s r) : c.expecting s rs = [] := by
  have hstarting : c.starting s rs = [] := by
    refine List.filter_eq_nil_iff.mpr fun r hr hstarts => ?_
    obtain ⟨hintent, hinstance, hsome⟩ := of_decide_eq_true hstarts
    exact h r hr ⟨hinstance, .inr ⟨hintent, Option.isSome_iff_ne_none.mp hsome⟩⟩
  have hentering : entering s rs = [] := by
    refine List.filter_eq_nil_iff.mpr fun r hr henters => ?_
    obtain ⟨hintent, hinstance⟩ := of_decide_eq_true henters
    exact h r hr ⟨hinstance, .inl hintent⟩
  unfold expecting
  rw [hstarting, hentering]
  rfl

/-- Records that take no token may come first. -/
theorem expecting_append_of_left {rs' : List Record} (h : ∀ r ∈ rs, ¬c.Expects s r) :
    c.expecting s (rs ++ rs') = c.expecting s rs' := by
  obtain ⟨hstarting, hentering⟩ := List.append_eq_nil_iff.mp (expecting_eq_nil h)
  unfold expecting
  rw [starting_append, entering_append, hstarting, hentering]
  rfl

/-- They may come last as well. -/
theorem expecting_append_of_right {rs' : List Record} (h : ∀ r ∈ rs', ¬c.Expects s r) :
    c.expecting s (rs ++ rs') = c.expecting s rs := by
  obtain ⟨hstarting, hentering⟩ := List.append_eq_nil_iff.mp (expecting_eq_nil h)
  unfold expecting
  rw [starting_append, entering_append, hstarting, hentering, List.append_nil, List.append_nil]

/-- An active container that is tracked comes before all that are to be activated. -/
theorem expecting_cons_of_tracked {i : ElementInstance} (h : r.intent = .elementActivated)
    (hinst : c.instance? r.key = some i) :
    c.expecting s (r :: rs) =
      (if r.value.instanceKey = s then [r] else []) ++ c.expecting s rs := by
  unfold expecting
  rw [starting_cons_of_tracked h hinst, entering_cons_of_ne (by rw [h]; simp), List.append_assoc]

end Expecting

end Contents

/-! ## Tokens one by one -/

/-- One entry of a list may take the place of another one that is related to as
    much. -/
theorem forall₂_replace {α β : Type} {R S : α → β → Prop} {a b : β}
    (himp : ∀ t r, R t r → S t r)
    (hab : ∀ t, R t a → S t b) {ts : List α} {u v : List β}
    (h : List.Forall₂ R ts (u ++ a :: v)) : List.Forall₂ S ts (u ++ b :: v) := by
  induction u generalizing ts with
  | nil =>
    cases h with
    | cons hhead htail => exact .cons (hab _ hhead) (htail.imp himp)
  | cons r u ih =>
    cases h with
    | cons hhead htail => exact .cons (himp _ _ hhead) (ih htail)

namespace Contents

/-- The tokens of a workflow instance are related, one by one, to the records
    that are going to take them. -/
def Matched (R : Token → Record → Prop) (c : Contents) (s : Key) (rs : List Record) : Prop :=
  List.Forall₂ R (c.tokensOf s) (c.expecting s rs)

namespace Matched

variable {R S : Token → Record → Prop} {c : Contents} {s : Key} {r x : Record}
  {rs rs' : List Record}

theorem mono (h : c.Matched R s rs) (himp : ∀ t r, R t r → S t r) :
    c.Matched S s rs := h.imp himp

/-- Records that take no token of the workflow instance may be handled or join. -/
theorem congr (h : c.Matched R s rs) (heq : c.expecting s rs' = c.expecting s rs) :
    c.Matched R s rs' := by
  unfold Matched
  rw [heq]
  exact h

/-- A record that takes no token may be handled. -/
theorem skip (h : c.Matched R s (r :: rs)) (hr : ¬c.Expects s r) : c.Matched R s rs := by
  have hhead : c.expecting s ([r] ++ rs) = c.expecting s rs :=
    expecting_append_of_left fun x hx => List.mem_singleton.mp hx ▸ hr
  exact h.congr hhead.symm

/-- A new token comes behind the others, for the container that is going to be
    activated after the others. -/
theorem enter (h : c.Matched R s rs) {t : Token} (hx : x.intent = .elementActivating) (ht : R t x) :
    (c.setTokens x.value.instanceKey (c.tokensOf x.value.instanceKey ++ [t])).Matched R s
      (rs ++ [x]) := by
  have hstarting : Contents.starting (c.setTokens x.value.instanceKey
      (c.tokensOf x.value.instanceKey ++ [t])) s (rs ++ [x]) = c.starting s rs := by
    rw [starting_append, starting_cons_of_ne (by rw [hx]; simp)]
    exact List.append_nil _
  have hentering : entering s (rs ++ [x]) =
      entering s rs ++ if x.value.instanceKey = s then [x] else [] := by
    rw [entering_append, entering_cons hx]
    exact congrArg (entering s rs ++ ·) (List.append_nil _)
  unfold Matched expecting at h ⊢
  rw [tokensOf_setTokens, hstarting, hentering, ← List.append_assoc]
  by_cases hs : s = x.value.instanceKey
  · subst hs
    rw [if_pos rfl, if_pos rfl]
    exact List.rel_append h (.cons ht .nil)
  · rw [if_neg hs, if_neg fun heq => hs heq.symm, List.append_nil]
    exact h

/-- The container that is activated next starts after those that are active. -/
theorem activate (h : c.Matched R s (r :: rs)) {i : ElementInstance}
    (hr : r.intent = .elementActivating) (hx : x.intent = .elementActivated) (hkey : x.key = r.key)
    (hinstance : x.value.instanceKey = r.value.instanceKey) (himp : ∀ t b, R t b → S t b)
    (hreplace : ∀ t, R t r → S t x)
    (hother : ∀ b ∈ rs, b.intent = .elementActivated → b.key ≠ r.key) :
    (c.setInstance r.key (some i)).Matched S s (rs ++ [x]) := by
  have htracked : (c.setInstance r.key (some i)).instance? x.key = some i := by
    rw [hkey, instance?_setInstance, if_pos rfl]
  have hstarting : (c.setInstance r.key (some i)).starting s rs = c.starting s rs :=
    starting_setInstance hother _
  have hentering : entering s (rs ++ [x]) = entering s rs := by
    rw [entering_append, entering_cons_of_ne (by rw [hx]; simp)]
    exact List.append_nil _
  unfold Matched expecting at h ⊢
  rw [starting_cons_of_ne (by rw [hr]; simp), entering_cons hr] at h
  rw [tokensOf_setInstance, starting_append, hstarting, hentering,
    starting_cons_of_tracked hx htracked, hinstance]
  by_cases hs : r.value.instanceKey = s
  · -- Behind those that are active, the container takes the place of its activation.
    rw [if_pos hs] at h ⊢
    simpa [starting] using forall₂_replace himp hreplace h
  · rw [if_neg hs] at h ⊢
    simpa [starting] using h.imp himp

/-- There is a token for a container that starts, in front of the others. -/
theorem head (h : c.Matched R r.value.instanceKey (r :: rs)) {i : ElementInstance}
    (hr : r.intent = .elementActivated) (hinst : c.instance? r.key = some i) :
    ∃ t ts, c.tokensOf r.value.instanceKey = t :: ts ∧ R t r := by
  unfold Matched at h
  rw [expecting_cons_of_tracked hr hinst, if_pos rfl] at h
  cases htokens : c.tokensOf r.value.instanceKey with
  | nil =>
    rw [htokens] at h
    cases h
  | cons t ts =>
    rw [htokens] at h
    exact ⟨t, ts, rfl, (List.forall₂_cons.mp h).1⟩

/-- A container that starts takes the oldest token. -/
theorem take (h : c.Matched R s (r :: rs)) {i : ElementInstance} {t : Token} {ts : List Token}
    (hr : r.intent = .elementActivated) (hinst : c.instance? r.key = some i)
    (htokens : c.tokensOf r.value.instanceKey = t :: ts) :
    (c.setTokens r.value.instanceKey ts).Matched R s rs := by
  unfold Matched at h ⊢
  rw [expecting_cons_of_tracked hr hinst] at h
  rw [tokensOf_setTokens]
  by_cases hs : s = r.value.instanceKey
  · subst hs
    rw [htokens, if_pos rfl] at h
    rw [if_pos rfl]
    exact (List.forall₂_cons.mp h).2
  · rw [if_neg fun heq => hs heq.symm] at h
    rw [if_neg hs]
    exact h

end Matched

end Contents

/-! ## The order of the tokens -/

/-- A token was left by the event to whose story a record belongs. -/
def Carries (repo : Repository) (l : Log) (t : Token) (r : Record) : Prop :=
  ∃ ev, l.Story repo ev r ∧ t = ev.token

theorem Carries.append {repo : Repository} {l : Log} {t : Token} {r : Record}
    (h : Carries repo l t r) (x : PendingRecord) : Carries repo (l.append x) t r := by
  obtain ⟨ev, hev, rfl⟩ := h
  exact ⟨ev, hev.append x, rfl⟩

/-- The tokens of every workflow instance wait for the given records. -/
def Waiting (repo : Repository) (l : Log) (c : Contents) (rs : List Record) : Prop :=
  ∀ s, List.Forall₂ (Carries repo l) (c.tokensOf s) (c.expecting s rs)

/-! ## Changes -/

namespace Waiting

variable {repo : Repository} {l : Log} {c : Contents} {r : Record} {rs : List Record}

theorem empty (repo : Repository) (l : Log) : Waiting repo l .empty [] := by
  intro s
  exact .nil

/-- A record of another intent may join the log. -/
theorem append (h : Waiting repo l c rs) {x : PendingRecord} (hx : x.intent ≠ .elementActivating)
    (hx' : x.intent ≠ .elementActivated) : Waiting repo (l.append x) c (rs ++ [l.record x]) := by
  intro s
  have hmatched : c.Matched (Carries repo (l.append x)) s rs :=
    Contents.Matched.mono (h s) fun t r hcarries => hcarries.append x
  refine hmatched.congr (Contents.expecting_append_of_right fun r hr hexpects => ?_)
  obtain rfl := List.mem_singleton.mp hr
  exact hexpects.intent.elim hx hx'

/-- A record of another intent may be handled. -/
theorem pass (h : Waiting repo l c (r :: rs)) (hr : r.intent ≠ .elementActivating)
    (hr' : r.intent ≠ .elementActivated) : Waiting repo l c rs := by
  intro s
  exact Contents.Matched.skip (h s) fun hexpects => hexpects.intent.elim hr hr'

/-- An event leaves a token behind the others, for the container that is going
    to be activated after the others. -/
theorem enter (h : Waiting repo l c rs) {x : PendingRecord} {t : Token}
    (hx : x.intent = .elementActivating) (hcarries : Carries repo (l.append x) t (l.record x)) :
    Waiting repo (l.append x)
      (c.setTokens x.value.instanceKey (c.tokensOf x.value.instanceKey ++ [t]))
      (rs ++ [l.record x]) := by
  intro s
  have hmatched : c.Matched (Carries repo (l.append x)) s rs :=
    Contents.Matched.mono (h s) fun t r hcarries => hcarries.append x
  exact hmatched.enter (x := l.record x) hx hcarries

/-- The container that is activated next starts after those that are active. -/
theorem activate (h : Waiting repo l c (r :: rs)) {x : PendingRecord} {i : ElementInstance}
    (hr : r.intent = .elementActivating) (hx : x.intent = .elementActivated)
    (hkey : x.key = some r.key) (hvalue : x.value = r.value)
    (hcarries : ∀ t, Carries repo l t r → Carries repo (l.append x) t (l.record x))
    (hother : ∀ b ∈ rs, b.intent = .elementActivated → b.key ≠ r.key) :
    Waiting repo (l.append x) (c.setInstance r.key (some i)) (rs ++ [l.record x]) := by
  intro s
  exact Contents.Matched.activate (x := l.record x) (h s) hr hx (l.record_key_of_some hkey)
    (congrArg _ hvalue) (fun t r hcarries => hcarries.append x) hcarries hother

/-- A container that starts takes the oldest token, which is its own. -/
theorem start (h : Waiting repo l c (r :: rs)) {i : ElementInstance}
    (hr : r.intent = .elementActivated) (hinst : c.instance? r.key = some i) :
    ∃ t ts, c.tokensOf r.value.instanceKey = t :: ts ∧ Carries repo l t r ∧
      Waiting repo l (c.setTokens r.value.instanceKey ts) rs := by
  obtain ⟨t, ts, htokens, hhead⟩ := Contents.Matched.head (h r.value.instanceKey) hr hinst
  exact ⟨t, ts, htokens, hhead, fun s => Contents.Matched.take (h s) hr hinst htokens⟩

/-- A container that is no longer tracked has no token. -/
theorem gone (h : Waiting repo l c (r :: rs)) (hr : r.intent = .elementActivated)
    (hinst : c.instance? r.key = none) : Waiting repo l c rs := by
  intro s
  refine Contents.Matched.skip (h s) fun hexpects => ?_
  rcases hexpects.2 with hintent | ⟨-, hsome⟩
  · rw [hr] at hintent
    cases hintent
  · exact hsome hinst

/-- A container that is no longer tracked leaves the tokens of other workflow
    instances alone, and its own has none if all of its containers are gone. -/
theorem clear (h : Waiting repo l c rs) {k : Key} (s : Key)
    (hstarting : ∀ b ∈ rs, b.intent = .elementActivated → b.value.instanceKey = s →
      b.key = k)
    (hother : ∀ b ∈ rs, b.intent = .elementActivated → b.value.instanceKey ≠ s →
      b.key ≠ k)
    (hentering : Contents.entering s rs = []) :
    Waiting repo l ((c.setInstance k none).setTokens s []) rs := by
  intro s'
  rw [Contents.tokensOf_setTokens]
  by_cases hs : s' = s
  · -- All that could start here is no longer tracked.
    rw [if_pos hs, hs]
    unfold Contents.expecting
    rw [hentering, List.append_nil]
    have hnone : Contents.starting ((c.setInstance k none).setTokens s []) s rs = [] := by
      refine List.filter_eq_nil_iff.mpr fun b hb hstarts => ?_
      obtain ⟨hintent, hinstance, hsome⟩ := of_decide_eq_true hstarts
      rw [Contents.instance?_setTokens, Contents.instance?_setInstance,
        if_pos (hstarting b hb hintent hinstance)] at hsome
      cases hsome
    rw [hnone]
    exact .nil
  · rw [if_neg hs, Contents.tokensOf_setInstance]
    have hold := h s'
    unfold Contents.expecting at hold ⊢
    rw [Contents.starting_congr]
    · exact hold
    · intro b hb hintent hinstance
      rw [Contents.instance?_setTokens, Contents.instance?_setInstance, if_neg]
      exact hother b hb hintent fun heq => hs (hinstance.symm.trans heq)

end Waiting

end WorkflowEngine
