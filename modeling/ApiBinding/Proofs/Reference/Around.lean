import ApiBinding.Proofs.Outcome
import ApiBinding.Proofs.Reference.Cleared

/-! References into a document in which one value is replaced. A reference that spares the value
leads to the same place in both documents or to none in either, and what stands there is the same
for whoever reads only some keys of it. -/

namespace ApiBinding

namespace Pointer

open Value

/-- A reference that leads neither to the end of a path of keys nor beyond it, and to no mapping on
the path whose next key is among those read. -/
structure Spares (read path : List String) (ref : String) : Prop where
  apart : ∀ rest, pathOf? ref ≠ some (path ++ rest)
  unread : ∀ steps name rest, pathOf? ref = some steps → path = steps ++ name :: rest →
    name ∉ read

variable {old new document document' : Value} {path read : List String}

/-! ## Walks -/

/-- A walk that does not reach what is replaced may stop at a mapping around it. -/
theorem walk_apart (h : Replaced old new path document document') {steps : List String}
    (apart : ∀ rest, steps ≠ path ++ rest) :
    SameEnd (fun value value' => value = value' ∨
        ∃ name rest, path = steps ++ name :: rest ∧ DifferAt name value value')
      (steps.foldlM enter document) (steps.foldlM enter document') := by
  refine (walk_around h fun step rest => apart (step :: rest)).mono ?_
  rintro value value' (same | ⟨rest, onPath, around⟩)
  · exact .inl same
  · cases around with
    | here => exact absurd (by simpa using onPath.symm) (apart [])
    | under found below => exact .inr ⟨_, _, onPath, .entry _ _⟩

theorem walk_spared (h : Replaced old new path document document') {steps : List String}
    (apart : ∀ rest, steps ≠ path ++ rest)
    (unread : ∀ name rest, path = steps ++ name :: rest → name ∉ read) :
    SameEnd (DifferOutside read) (walk document steps) (walk document' steps) := by
  refine (walk_apart h apart).bind ?_
  rintro value value' (rfl | ⟨name, rest, onPath, differ⟩)
  · refine (SameEnd.refl _).mono ?_
    rintro last _ rfl
    exact .same last
  · have outside := differ.outside (unread name rest onPath)
    cases differ with
    | same _ =>
        refine (SameEnd.refl _).mono ?_
        rintro last _ rfl
        exact .same last
    | entry entries inner => exact .done outside

theorem lookup_spared (h : Replaced old new path document document') {ref : String}
    (spares : Spares read path ref) :
    SameEnd (DifferOutside read) (lookup document (.text ref)) (lookup document' (.text ref)) := by
  have apart := spares.apart
  have unread := spares.unread
  unfold lookup
  simp only [Value.text?, Option.bind_some]
  cases inside : Text.dropStart? ['#', '/'] ref.toList with
  | none => exact .failed _
  | some rest =>
      have pointed : pathOf? ref = some (segments rest) := by simp [pathOf?, inside]
      refine SameEnd.mapError _ (walk_spared h (fun later same => ?_) fun name later onPath => ?_)
      · exact apart later (pointed.trans (congrArg some same))
      · exact unread _ name later pointed onPath

/-! ## Chains -/

theorem find?_object_outside {node node' : Value} {key : String}
    (differ : DifferOutside read node node') (isRead : key ∈ read) :
    node'.object?.bind (Mapping.find? · key) = node.object?.bind (Mapping.find? · key) := by
  cases differ with
  | same _ => rfl
  | entry entries value unread =>
      have other := (ne_of_mem_of_not_mem isRead unread).symm
      simpa [Value.object?] using Mapping.find?_insert_of_ne entries value other

/-- A reference that is no text is refused in the same way by every document. -/
theorem exists_lookup_eq_error {target : Value} (plain : ∀ ref, target ≠ .text ref) :
    ∃ failure, ∀ document, lookup document target = .error failure := by
  have refused (document : Value) : lookup document target = refuse target := by
    cases target with
    | text ref => exact absurd rfl (plain ref)
    | _ => rfl
  cases outcome : (refuse target : Except Failure Value) with
  | ok value => exact absurd outcome (refuse_ne_ok target value)
  | error failure => exact ⟨failure, fun document => (refused document).trans outcome⟩

theorem not_meets {node : Value} (plain : node.object?.bind (Mapping.find? · "$ref") = none)
    (ref : String) : ¬ Meets document node ref := by
  intro met
  cases met <;> simp_all [Value.object?]

/-- The induction is on the bound; the nodes are the same for whoever reads only some keys, with
the one that marks references among them. -/
theorem followWithin_spared (h : Replaced old new path document document')
    (marked : "$ref" ∈ read) {depth : Nat} {seen : List String} {node node' : Value}
    (differ : DifferOutside read node node')
    (spares : ∀ ref, Meets document node ref → Spares read path ref) :
    SameEnd (DifferOutside read) (followWithin document depth seen node)
      (followWithin document' depth seen node') := by
  induction depth generalizing seen node node' with
  | zero => exact .failed _
  | succ depth ih =>
      simp only [followWithin]
      rw [find?_object_outside differ marked]
      split
      · exact .done differ
      · exact .failed _
      · exact .failed _
      · rename_i ref cited
        split
        · exact .failed _
        · obtain ⟨entries, rfl, found⟩ := eq_object_of_cited cited
          refine (lookup_spared h (spares ref (.own found))).found.bind ?_
          rintro next next' ⟨reached, alike⟩
          exact ih alike fun other met => spares other (.next found reached met)
      · rename_i target _ _ plain _
        obtain ⟨failure, refused⟩ := exists_lookup_eq_error plain
        rw [refused, refused]
        exact .failed _

/-- Neither document is followed to the bound, so that one bound serves for both. -/
theorem follow_spared (h : Replaced old new path document document') (marked : "$ref" ∈ read)
    {node : Value} (spares : ∀ ref, Meets document node ref → Spares read path ref) :
    SameEnd (DifferOutside read) (follow document node) (follow document' node) := by
  let depth := max (document.size + 3) (document'.size + 3)
  have own : followWithin document depth [] node = follow document node :=
    followWithin_stable (Nat.le_max_left _ _) (follow_reached document node)
  have other : followWithin document' depth [] node = follow document' node :=
    followWithin_stable (Nat.le_max_right _ _) (follow_reached document' node)
  rw [← own, ← other]
  exact followWithin_spared h marked (.same node) spares

end Pointer

end ApiBinding
