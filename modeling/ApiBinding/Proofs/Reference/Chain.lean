import ApiBinding.Proofs.Outcome
import ApiBinding.Proofs.Reference.Extension
import ApiBinding.Proofs.Value.TextKeys
import ApiBinding.Proofs.Value.Writable

/-! Where a chain of references ends. It ends at a node of the document or with a fault, unless it
comes to a mapping with a collection, or with an integer that is too long, in the place of its
reference. -/

namespace ApiBinding

namespace Value

open Relation

/-- A list or a mapping. -/
def isCollection : Value → Bool
  | .list _ => true
  | .object _ => true
  | _ => false

theorem texts_subset_of_contains {value part : Value} (h : ReflTransGen Holds value part) :
    part.texts ⊆ value.texts := by
  induction h with
  | refl => exact List.Subset.refl _
  | tail _ held ih =>
      refine List.Subset.trans ?_ ih
      cases held with
      | item member => exact texts_subset_listTexts member
      | entry member => exact texts_subset_mappingTexts member

end Value

namespace Pointer

open Relation Value

variable {document node value : Value}

/-! ## Lookup -/

theorem contains_enter {segment : String} (h : enter node segment = .ok value) :
    Holds node value := by
  cases node with
  | object entries =>
      simp only [enter] at h
      split at h
      · rename_i found
        obtain rfl := Except.ok.inj h
        exact holds_find? found
      · simp at h
  | list items =>
      simp only [enter] at h
      split at h
      · rename_i found
        obtain rfl := Except.ok.inj h
        obtain ⟨index, -, found⟩ := Option.bind_eq_some_iff.mp found
        unfold itemAt? at found
        split at found
        · exact .item (List.mem_of_getElem? found)
        · split at found
          · exact .item (List.mem_of_getElem? found)
          · simp at found
      · simp at h
  | _ => simp [enter] at h

theorem contains_walk {steps : List String} (h : steps.foldlM enter node = .ok value) :
    ReflTransGen Holds node value := by
  induction steps generalizing node with
  | nil =>
      obtain rfl := Except.ok.inj h
      exact .refl
  | cons step rest ih =>
      rw [List.foldlM_cons] at h
      cases entered : enter node step with
      | error failure => simp [entered, bind, Except.bind] at h
      | ok next =>
          rw [entered] at h
          exact .head (contains_enter entered) (ih h)

theorem contains_lookup {target : Value} (h : lookup document target = .ok value) :
    ReflTransGen Holds document value := by
  obtain ⟨ref, rfl⟩ := text_of_lookup h
  obtain ⟨steps, -, walked⟩ := lookup_text_eq_ok_iff.mp h
  exact contains_walk (walk_eq_ok_iff.mp walked).1

/-- A reference that is no pointer into the document is refused with a fault, if it can be shown. -/
theorem ends_refuse (target : Value) :
    Ends (refuse target) (fun _ : Value => False)
      (Stops fun defect => defect = .integerTooLong ∧ target.HasLongInteger) :=
  target.ends_shown.bind fun _ _ => .error (.fault _)

/-- A reference that cannot be followed is a fault, if it can be shown. -/
theorem ends_lookup (document target : Value) :
    Ends (lookup document target) (fun value => lookup document target = .ok value)
      (Stops fun defect => defect = .integerTooLong ∧ target.HasLongInteger) := by
  refine ⟨id, ?_⟩
  intro failure failed
  unfold lookup at failed
  dsimp only at failed
  split at failed
  · rename_i ref path _
    cases walked : walk document (segments path) with
    | ok value => simp [walked, Except.mapError] at failed
    | error unresolved =>
        simp only [walked, Except.mapError, Except.error.injEq] at failed
        subst failed
        exact .fault _
  · exact (ends_refuse target).stops failed

theorem ends_lookup_text (document : Value) (ref : String) {cause : Defect → Prop} :
    Ends (lookup document (.text ref)) (fun value => lookup document (.text ref) = .ok value)
      (Stops cause) := by
  refine (ends_lookup document (.text ref)).widen ?_
  rintro defect ⟨-, number, member, -⟩
  simp [integers] at member

/-! ## Chains -/

/-- A node is a reference to another one. -/
def RefersOn (document node next : Value) : Prop :=
  ∃ (entries : Mapping) (ref : String), node = .object entries ∧
    entries.find? "$ref" = some (.text ref) ∧ lookup document (.text ref) = .ok next

/-- What stops a chain in the place of a reference: a collection, or an integer that is too long to
be shown. -/
inductive Stopper : Value → Defect → Prop where
  | collection {target} : target.isCollection = true → Stopper target .collectionReference
  | integer {number : Int} : 10 ^ Integer.digitLimit ≤ number.natAbs →
      Stopper (.int number) .integerTooLong

/-- References lead from a node to a mapping with a stopper in the place of its reference. -/
def Blocked (document node : Value) (defect : Defect) : Prop :=
  ∃ entries : Mapping, ReflTransGen (RefersOn document) node (.object entries) ∧
    Stopper (entries.field "$ref") defect

theorem RefersOn.contains {next : Value} (h : RefersOn document node next) :
    ReflTransGen Holds document next := by
  obtain ⟨entries, ref, -, -, found⟩ := h
  exact contains_lookup found

/-- In a document with texts as keys, references lead to values with texts as keys. -/
theorem isTextKeyed_of_refersOn (texts : document.isTextKeyed = true)
    (h : ReflTransGen (RefersOn document) node value) (hnode : node.isTextKeyed = true) :
    value.isTextKeyed = true := by
  cases h with
  | refl => exact hnode
  | tail _ last => exact isTextKeyed_of_contains last.contains texts

theorem eq_object_of_cited {target : Value}
    (cited : node.object?.bind (Mapping.find? · "$ref") = some target) :
    ∃ entries : Mapping, node = .object entries ∧ entries.find? "$ref" = some target := by
  obtain ⟨entries, isObject, found⟩ := Option.bind_eq_some_iff.mp cited
  exact ⟨entries, eq_object_of_object? isObject, found⟩

/-- The texts of the references that a chain from a node can follow: that of the node, and those
of the document. -/
def chainPool (document node : Value) : List String :=
  ((node.object?.bind (Mapping.find? · "$ref")).bind Value.text?).toList ++ document.texts

theorem chainPool_subset (h : node.texts ⊆ document.texts) :
    chainPool document node ⊆ document.texts := by
  intro ref met
  rcases List.mem_append.mp met with own | later
  · obtain ⟨target, cited, isText⟩ := Option.bind_eq_some_iff.mp (Option.mem_toList.mp own)
    obtain ⟨entries, rfl, found⟩ := eq_object_of_cited cited
    obtain rfl : target = .text ref := by
      cases target <;> simp_all [Value.text?]
    exact h (texts_subset_of_contains (.single (holds_find? found)) (by simp [texts]))
  · exact later

/-- The induction is on the depth. The chain so far leads from the start to the node, and each
reference that it followed is one fewer to follow. -/
theorem ends_followWithin {start : Value} {depth : Nat} {seen : List String} {pool : List String}
    (chain : ReflTransGen (RefersOn document) start node)
    (inside : chainPool document node ⊆ pool) (enough : unmet pool seen.contains < depth) :
    Ends (followWithin document depth seen node) (ReflTransGen (RefersOn document) start)
      (Stops (Blocked document start)) := by
  induction depth generalizing seen node with
  | zero => omega
  | succ depth ih =>
      have blocked {target : Value} {defect : Defect}
          (cited : node.object?.bind (Mapping.find? · "$ref") = some target)
          (stopper : Stopper target defect) : Blocked document start defect := by
        obtain ⟨entries, rfl, found⟩ := eq_object_of_cited cited
        exact ⟨entries, chain, by simpa [Mapping.field, found] using stopper⟩
      rw [followWithin]
      split
      · exact .ok chain
      · rename_i cited
        exact .error (.defect (blocked cited (.collection rfl)))
      · rename_i cited
        exact .error (.defect (blocked cited (.collection rfl)))
      · rename_i ref cited
        split
        · exact .error (.fault _)
        · rename_i new
          refine (ends_lookup_text document ref).bind ?_
          intro next found
          have member : ref ∈ pool := inside (by simp [chainPool, cited, Value.text?])
          have fewer : unmet pool (ref :: seen).contains < unmet pool seen.contains := by
            refine unmet_lt ?_ member (by simpa using new) (by simp)
            intro other known
            simp_all
          obtain ⟨entries, rfl, cited⟩ := eq_object_of_cited cited
          have later := chainPool_subset (texts_subset_of_contains (contains_lookup found))
          refine ih (chain.tail ⟨entries, ref, rfl, cited, found⟩) ?_ (by omega)
          exact List.Subset.trans later fun _ met => inside (List.mem_append_right _ met)
      · rename_i target noList noObject external cited
        refine ((ends_lookup document target).widen ?_).mono ?_ (fun _ => id)
        · rintro defect ⟨rfl, number, member, long⟩
          cases target with
          | int own =>
              obtain rfl := List.mem_singleton.mp member
              exact blocked cited (.integer long)
          | list items => exact (noList items rfl).elim
          | object entries => exact (noObject entries rfl).elim
          | _ => simp [integers] at member
        · intro value found
          obtain ⟨ref, rfl⟩ := text_of_lookup found
          exact (external ref rfl).elim

/-- A chain of references ends at a value that they lead to, or with a fault, unless it is
blocked. -/
theorem ends_follow (document node : Value) :
    Ends (follow document node) (ReflTransGen (RefersOn document) node)
      (Stops (Blocked document node)) := by
  refine ends_followWithin .refl (List.Subset.refl (chainPool document node)) ?_
  have own : ((node.object?.bind (Mapping.find? · "$ref")).bind Value.text?).toList.length ≤ 1 :=
    Option.length_toList_le
  have references : (chainPool document node).length ≤ document.size + 1 := by
    have := length_texts_le document
    rw [chainPool, List.length_append]
    omega
  have := unmet_le_length (chainPool document node) ([] : List String).contains
  omega

/-- In a document with texts as keys a chain ends at a value with texts as keys. -/
theorem ends_follow_of_texts (texts : document.isTextKeyed = true)
    (hnode : node.isTextKeyed = true) :
    Ends (follow document node) (·.isTextKeyed = true)
      (Stops (Blocked document node)) :=
  (ends_follow document node).mono
    (fun _ chain => isTextKeyed_of_refersOn texts chain hnode) fun _ => id

end Pointer

end ApiBinding
