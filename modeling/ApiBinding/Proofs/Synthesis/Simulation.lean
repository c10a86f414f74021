import ApiBinding.Proofs.Synthesis.Derivation

/-! Runs in related sessions. If a relation is kept by the steps that concern no reference, the
typing of parts in related sessions carries over to the steps of a composition and to the fields of
a record. -/

namespace ApiBinding

/-- A relation of sessions with the same catalogs that is kept where no reference is met. -/
structure Session.IsSimulation (related : Session → Session → Prop) : Prop where
  catalog : ∀ {session session'}, related session session' → session'.catalog = session.catalog
  warn : ∀ {session session'} (warning), related session session' →
    related (session.warn warning) (session'.warn warning)
  reserve : ∀ {session session'} (name), related session session' →
    related (session.reserve name) (session'.reserve name)
  store : ∀ {session session'} (record), related session session' →
    related (session.store record) (session'.store record)

namespace Synthesis

open ApiBinding.Schema

/-- The answers of a judgement are given by another one in every related session. -/
def Judgement.SimulatedBy (related : Session → Session → Prop) (typed typed' : Judgement) : Prop :=
  ∀ ⦃session node result after events session'⦄, typed session node result after events →
    related session session' →
    ∃ after', typed' session' node result after' events ∧ related after after'

variable {scope : Scope} {related : Session → Session → Prop} {typed typed' : Judgement}
  {session session' after : Session} {events : List Event}

theorem StepsDerivation.simulate (simulation : Session.IsSimulation related)
    (simulated : typed.SimulatedBy related typed') {steps : List Step}
    {result : Except Failure (List TypeExpr)}
    (derivation : StepsDerivation typed session steps result after events)
    (same : related session session') :
    ∃ after', StepsDerivation typed' session' steps result after' events ∧
      related after after' := by
  induction derivation generalizing session' with
  | nil session => exact ⟨session', .nil session', same⟩
  | skip _ ih =>
      obtain ⟨after', steps, same'⟩ := ih (simulation.warn _ same)
      exact ⟨after', .skip steps, same'⟩
  | stop typed =>
      obtain ⟨after', typed', same'⟩ := simulated typed same
      exact ⟨after', .stop typed', same'⟩
  | refuse typed refused =>
      obtain ⟨after', typed', same'⟩ := simulated typed same
      exact ⟨after', .refuse typed' refused, same'⟩
  | next typed accepted _ ih =>
      obtain ⟨middle', typed', same'⟩ := simulated typed same
      obtain ⟨after', steps, same''⟩ := ih same'
      exact ⟨after', .next typed' accepted steps, same''⟩

theorem RecordDerivation.simulate (simulation : Session.IsSimulation related)
    (simulated : typed.SimulatedBy related typed') {name : String} {schema : Mapping}
    {result : Except Failure TypeExpr}
    (derivation : RecordDerivation scope typed result session name schema after events)
    (same : related session session') :
    ∃ after', RecordDerivation scope typed' result session' name schema after' events ∧
      related after after' := by
  cases derivation with
  | taken taken =>
      rw [← simulation.catalog same] at taken
      exact ⟨session', .taken taken, same⟩
  | unreadable free unreadable =>
      rw [← simulation.catalog same] at free
      exact ⟨_, .unreadable free unreadable, simulation.reserve name same⟩
  | broken free flattened steps =>
      rw [← simulation.catalog same] at free
      obtain ⟨after', steps', same'⟩ :=
        steps.simulate simulation simulated (simulation.reserve name same)
      exact ⟨after', .broken free flattened steps', same'⟩
  | stored free flattened steps =>
      rw [← simulation.catalog same] at free
      obtain ⟨after', steps', same'⟩ :=
        steps.simulate simulation simulated (simulation.reserve name same)
      exact ⟨_, .stored free flattened steps', simulation.store _ same'⟩

end Synthesis

end ApiBinding
