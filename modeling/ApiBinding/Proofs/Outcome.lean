import ApiBinding.Failure
import Mathlib.Data.List.Forall2

/-! What can come of a computation: results with one property, and failures with another; and
what can come of two computations side by side. -/

namespace ApiBinding

/-- Each result has the first property, and each failure the second one. -/
structure Ends {α : Type} (result : Except Failure α) (post : α → Prop) (stop : Failure → Prop) :
    Prop where
  holds : ∀ {value}, result = .ok value → post value
  stops : ∀ {failure}, result = .error failure → stop failure

namespace Ends

variable {α β : Type} {post : α → Prop} {post' : β → Prop} {stop : Failure → Prop}

theorem ok {value : α} (h : post value) : Ends (.ok value) post stop := by
  refine ⟨?_, by simp⟩
  intro found same
  exact Except.ok.inj same ▸ h

theorem error {failure : Failure} (h : stop failure) : Ends (.error failure) post stop := by
  refine ⟨by simp, ?_⟩
  intro found same
  exact Except.error.inj same ▸ h

theorem mono {result : Except Failure α} {post' : α → Prop} {stop' : Failure → Prop}
    (h : Ends result post stop) (hpost : ∀ value, post value → post' value)
    (hstop : ∀ failure, stop failure → stop' failure) : Ends result post' stop' :=
  ⟨fun found => hpost _ (h.holds found), fun failed => hstop _ (h.stops failed)⟩

/-- What follows a computation may count on its result. -/
theorem found {result : Except Failure α} (h : Ends result post stop) :
    Ends result (fun value => result = .ok value ∧ post value) stop :=
  ⟨fun found => ⟨found, h.holds found⟩, h.stops⟩

/-- The second of two computations runs on a result of the first one. -/
theorem bind {result : Except Failure α} {next : α → Except Failure β} (h : Ends result post stop)
    (hnext : ∀ value, post value → Ends (next value) post' stop) :
    Ends (result >>= next) post' stop := by
  cases found : result with
  | error failure => exact error (h.stops found)
  | ok value => exact hnext value (h.holds found)

theorem map {result : Except Failure α} {f : α → β}
    (h : Ends result (fun value => post' (f value)) stop) : Ends (result.map f) post' stop := by
  cases found : result with
  | error failure => exact error (h.stops found)
  | ok value => exact ok (h.holds found)

/-- What holds before a fold is kept by each of its steps. -/
theorem foldlM {step : α → β → Except Failure α} {items : List β}
    (hstep : ∀ state, post state → ∀ item ∈ items, Ends (step state item) post stop) {start : α}
    (hstart : post start) : Ends (items.foldlM step start) post stop := by
  induction items generalizing start with
  | nil => exact ok hstart
  | cons item rest ih =>
      rw [List.foldlM_cons]
      refine (hstep start hstart item List.mem_cons_self).bind ?_
      intro state hstate
      exact ih (fun state hstate other member =>
        hstep state hstate other (List.mem_cons_of_mem _ member)) hstate

/-- Every result of a list comes from an item of it. -/
theorem mapM {step : α → Except Failure β} {items : List α}
    (hstep : ∀ item ∈ items, Ends (step item) post' stop) :
    Ends (items.mapM step) (fun values => ∀ value ∈ values, post' value) stop := by
  induction items with
  | nil => exact ok (by simp)
  | cons item rest ih =>
      rw [List.mapM_cons]
      refine (hstep item List.mem_cons_self).bind ?_
      intro value hvalue
      refine (ih fun other member => hstep other (List.mem_cons_of_mem _ member)).bind ?_
      intro values hvalues
      refine ok ?_
      intro other member
      rcases List.mem_cons.mp member with rfl | member
      · exact hvalue
      · exact hvalues other member

end Ends

/-- A defined fault, or a defect that has a given cause in the document. -/
inductive Stops (cause : Defect → Prop) : Failure → Prop where
  | fault (found) : Stops cause (.fault found)
  | defect {found} : cause found → Stops cause (.defect found)

theorem Stops.mono {cause cause' : Defect → Prop} {failure : Failure} (h : Stops cause failure)
    (hcause : ∀ defect, cause defect → cause' defect) : Stops cause' failure := by
  cases h with
  | fault found => exact .fault found
  | defect found => exact .defect (hcause _ found)

/-- The defects may be explained by a weaker cause. -/
theorem Ends.widen {α : Type} {result : Except Failure α} {post : α → Prop}
    {cause cause' : Defect → Prop} (h : Ends result post (Stops cause))
    (hcause : ∀ defect, cause defect → cause' defect) : Ends result post (Stops cause') :=
  h.mono (fun _ => id) fun _ stopped => stopped.mono hcause

/-- The first of two computations has used up its depth, or both come to the same failure or to
related results. -/
inductive EndsLike {α β : Type} (related : α → β → Prop) :
    Except Failure α → Except Failure β → Prop where
  | exhausted {other} : EndsLike related (.error (.defect .depthExhausted)) other
  | failed (failure) : EndsLike related (.error failure) (.error failure)
  | done {a b} : related a b → EndsLike related (.ok a) (.ok b)

namespace EndsLike

variable {α β α' β' : Type} {related : α → β → Prop} {related' : α' → β' → Prop}

/-- A computation ends like itself. -/
theorem rfl {result : Except Failure α} :
    EndsLike (fun a b => a = b ∧ result = .ok a) result result := by
  cases result with
  | error failure => exact .failed failure
  | ok value => exact .done ⟨Eq.refl value, Eq.refl _⟩

theorem mono {result : Except Failure α} {other : Except Failure β} {after : α → β → Prop}
    (h : EndsLike related result other) (weaker : ∀ a b, related a b → after a b) :
    EndsLike after result other := by
  cases h with
  | exhausted => exact .exhausted
  | failed failure => exact .failed failure
  | done both => exact .done (weaker _ _ both)

/-- What follows two computations may count on their results. -/
theorem found {result : Except Failure α} {other : Except Failure β}
    (h : EndsLike related result other) :
    EndsLike (fun a b => (result = .ok a ∧ other = .ok b) ∧ related a b) result other := by
  cases h with
  | exhausted => exact .exhausted
  | failed failure => exact .failed failure
  | done both => exact .done ⟨⟨Eq.refl _, Eq.refl _⟩, both⟩

theorem bind {result : Except Failure α} {other : Except Failure β}
    {next : α → Except Failure α'} {next' : β → Except Failure β'}
    (h : EndsLike related result other)
    (hnext : ∀ a b, related a b → EndsLike related' (next a) (next' b)) :
    EndsLike related' (result >>= next) (other >>= next') := by
  cases h with
  | exhausted => exact .exhausted
  | failed failure => exact .failed failure
  | done both => exact hnext _ _ both

theorem map {result : Except Failure α} {other : Except Failure β} {f : α → α'}
    {after : α' → β → Prop} (h : EndsLike (fun a b => after (f a) b) result other) :
    EndsLike after (result.map f) other := by
  cases h with
  | exhausted => exact .exhausted
  | failed failure => exact .failed failure
  | done both => exact .done both

/-- Two folds along one list end alike if their steps do. -/
theorem foldlM {γ : Type} {step : α → γ → Except Failure α} {step' : β → γ → Except Failure β}
    {items : List γ} (hstep : ∀ a b, related a b → ∀ item ∈ items,
      EndsLike related (step a item) (step' b item)) {a : α} {b : β} (start : related a b) :
    EndsLike related (items.foldlM step a) (items.foldlM step' b) := by
  induction items generalizing a b with
  | nil => exact .done start
  | cons item rest ih =>
      rw [List.foldlM_cons, List.foldlM_cons]
      refine (hstep a b start item List.mem_cons_self).bind ?_
      intro a b both
      exact ih (fun a b both other member =>
        hstep a b both other (List.mem_cons_of_mem _ member)) both

end EndsLike

/-- Two computations come to the same failure, or to related results. -/
inductive SameEnd {ε α β : Type} (related : α → β → Prop) : Except ε α → Except ε β → Prop where
  | failed (failure) : SameEnd related (.error failure) (.error failure)
  | done {a b} : related a b → SameEnd related (.ok a) (.ok b)

namespace SameEnd

variable {ε ε' α β α' β' : Type} {related : α → β → Prop} {related' : α' → β' → Prop}
  {result : Except ε α} {other : Except ε β}

theorem refl (result : Except ε α) : SameEnd Eq result result := by
  cases result with
  | error failure => exact .failed failure
  | ok value => exact .done rfl

theorem eq {result other : Except ε α} (h : SameEnd Eq result other) : result = other := by
  cases h with
  | failed failure => rfl
  | done same => rw [same]

theorem mono {after : α → β → Prop} (h : SameEnd related result other)
    (weaker : ∀ a b, related a b → after a b) : SameEnd after result other := by
  cases h with
  | failed failure => exact .failed failure
  | done both => exact .done (weaker _ _ both)

/-- What follows two computations may count on the result of the first one. -/
theorem found (h : SameEnd related result other) :
    SameEnd (fun a b => result = .ok a ∧ related a b) result other := by
  cases h with
  | failed failure => exact .failed failure
  | done both => exact .done ⟨rfl, both⟩

/-- The second computation has a result if the first one has. -/
theorem exists_of_ok {a : α} (h : SameEnd related (.ok a) other) :
    ∃ b, other = .ok b ∧ related a b := by
  cases h with
  | done both => exact ⟨_, rfl, both⟩

theorem bind {next : α → Except ε α'} {next' : β → Except ε β'}
    (h : SameEnd related result other)
    (hnext : ∀ a b, related a b → SameEnd related' (next a) (next' b)) :
    SameEnd related' (result >>= next) (other >>= next') := by
  cases h with
  | failed failure => exact .failed failure
  | done both => exact hnext _ _ both

theorem mapError (f : ε → ε') (h : SameEnd related result other) :
    SameEnd related (result.mapError f) (other.mapError f) := by
  cases h with
  | failed failure => exact .failed (f failure)
  | done both => exact .done both

/-- A step that ends alike at each item of a list does so along the list. -/
theorem mapM {γ : Type} {step : γ → Except ε α} {step' : γ → Except ε β} {items : List γ}
    (hstep : ∀ item ∈ items, SameEnd related (step item) (step' item)) :
    SameEnd (List.Forall₂ related) (items.mapM step) (items.mapM step') := by
  induction items with
  | nil => exact .done .nil
  | cons item rest ih =>
      obtain ⟨first, others⟩ := List.forall_mem_cons.mp hstep
      rw [List.mapM_cons, List.mapM_cons]
      refine first.bind fun a b both => ?_
      exact (ih others).bind fun values values' all => .done (.cons both all)

/-- A test that treats related items alike keeps related items. -/
theorem filterM {related : α → α → Prop} {keep : α → Except ε Bool}
    (reads : ∀ a b, related a b → keep b = keep a) {items items' : List α}
    (h : List.Forall₂ related items items') :
    SameEnd (List.Forall₂ related) (items.filterM keep) (items'.filterM keep) := by
  -- The kept items are gathered in front of those that were kept before.
  have onward : ∀ {before before' : List α}, List.Forall₂ related before before' →
      SameEnd (List.Forall₂ related) (items.filterAuxM keep before)
        (items'.filterAuxM keep before') := by
    induction h with
    | nil => exact fun sofar => .done sofar
    | @cons item item' _ _ both _ ih =>
        intro before before' sofar
        simp only [List.filterAuxM, reads _ _ both]
        refine (refl (keep item)).bind ?_
        rintro flag _ rfl
        cases flag with
        | true => exact ih (.cons both sofar)
        | false => exact ih sofar
  exact (onward .nil).bind fun kept kept' all => .done (List.forall₂_reverse_iff.mpr all)

end SameEnd

theorem bind_eq_ok_iff {ε α β : Type} {result : Except ε α} {next : α → Except ε β} {value : β} :
    (result >>= next) = .ok value ↔ ∃ middle, result = .ok middle ∧ next middle = .ok value := by
  cases result with
  | error failure => simp [bind, Except.bind]
  | ok middle => simp [bind, Except.bind]

theorem bind_eq_error_iff {ε α β : Type} {result : Except ε α} {next : α → Except ε β}
    {failure : ε} :
    (result >>= next) = .error failure ↔
      result = .error failure ∨ ∃ middle, result = .ok middle ∧ next middle = .error failure := by
  cases result <;> simp [bind, Except.bind]

/-- Folds along one list are equal if their steps are equal at its items. -/
theorem foldlM_congr {α β : Type} {step step' : α → β → Except Failure α} {items : List β}
    (agree : ∀ state, ∀ item ∈ items, step state item = step' state item) (start : α) :
    items.foldlM step start = items.foldlM step' start := by
  induction items generalizing start with
  | nil => rfl
  | cons item rest ih =>
      rw [List.foldlM_cons, List.foldlM_cons, agree start item List.mem_cons_self]
      congr 1
      funext state
      exact ih (fun state other member => agree state other (List.mem_cons_of_mem _ member)) state

end ApiBinding
