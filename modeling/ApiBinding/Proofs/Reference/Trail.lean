import ApiBinding.Proofs.Reference.Cleared
import ApiBinding.Validation.Writer

/-! How following references ends: at the first value that is no reference, at a reference that
was followed before, or at one that cannot be looked up, whichever is met first. -/

namespace ApiBinding.Pointer

/-! ## Trails -/

/-- What a node has in the place of a reference. -/
def cited? (node : Value) : Option Value :=
  node.object?.bind (Mapping.find? · "$ref")

/-- The references that lead from a node to a value, each looked up in the document. The rules
remember nothing and know no bound. -/
inductive Trail (document : Value) : Value → List String → Value → Prop where
  | here (node) : Trail document node [] node
  | onward {node ref next refs last} : cited? node = some (.text ref) →
      lookup document (.text ref) = .ok next → Trail document next refs last →
      Trail document node (ref :: refs) last

/-- What becomes of a trail that is not followed any further. -/
inductive TrailEnd (document : Value) (refs : List String) (last : Value) :
    Except Failure Value → Prop where
  | plain : cited? last = none → TrailEnd document refs last (.ok last)
  | again {ref} : cited? last = some (.text ref) → ref ∈ refs →
      TrailEnd document refs last (.error (.fault (.circularReference ref)))
  | lost {ref failure} : cited? last = some (.text ref) → ref ∉ refs →
      lookup document (.text ref) = .error failure → TrailEnd document refs last (.error failure)

/-- Every reference that a trail from a node comes to is a text. -/
def CitesTexts (document node : Value) : Prop :=
  ∀ refs last target, Trail document node refs last → cited? last = some target →
    ∃ ref, target = .text ref

variable {document node last : Value} {refs seen : List String} {ref : String}

theorem CitesTexts.onward {next : Value} (texts : CitesTexts document node)
    (cited : cited? node = some (.text ref)) (found : lookup document (.text ref) = .ok next) :
    CitesTexts document next :=
  fun _ _ _ trail => texts _ _ _ (.onward cited found trail)

/-- There is one trail only, so a trail to a value that is no reference has met every
reference. -/
theorem Trail.citesTexts (trail : Trail document node refs last) (plain : cited? last = none) :
    CitesTexts document node := by
  induction trail with
  | here node =>
      intro refs last target other cited
      cases other with
      | here _ => simp [plain] at cited
      | onward cited' _ _ => simp [plain] at cited'
  | onward cited found _ ih =>
      intro refs last target other cited'
      cases other with
      | here _ => exact ⟨_, Option.some.inj (cited'.symm.trans cited)⟩
      | onward own found' rest =>
          obtain rfl := Value.text.inj (Option.some.inj (cited.symm.trans own))
          obtain rfl := Except.ok.inj (found.symm.trans found')
          exact ih plain _ _ _ rest cited'

/-- Only the texts that were met matter to the end of a trail. -/
theorem TrailEnd.congr {result : Except Failure Value} (ended : TrailEnd document seen last result)
    (same : ∀ ref, ref ∈ seen ↔ ref ∈ refs) : TrailEnd document refs last result := by
  cases ended with
  | plain plain => exact .plain plain
  | again cited met => exact .again cited ((same _).mp met)
  | lost cited new missing => exact .lost cited (fun met => new ((same _).mpr met)) missing

/-! ## Steps -/

theorem followWithin_of_plain (plain : cited? node = none) (depth : Nat) (seen : List String) :
    followWithin document (depth + 1) seen node = .ok node := by
  rw [followWithin, ← cited?, plain]

theorem followWithin_of_text (cited : cited? node = some (.text ref)) (depth : Nat)
    (seen : List String) :
    followWithin document (depth + 1) seen node =
      if ref ∈ seen then .error (.fault (.circularReference ref))
      else lookup document (.text ref) >>= followWithin document depth (ref :: seen) := by
  rw [followWithin, ← cited?, cited]
  simp

/-- A value that was followed to is no reference. -/
theorem cited?_of_followWithin {depth : Nat} {value : Value}
    (followed : followWithin document depth seen node = .ok value) : cited? value = none := by
  induction depth generalizing seen node with
  | zero => simp [followWithin] at followed
  | succ depth ih =>
      rw [followWithin, ← cited?] at followed
      split at followed
      · rename_i plain
        obtain rfl := Except.ok.inj followed
        exact plain
      · simp at followed
      · simp at followed
      · split at followed
        · simp at followed
        · obtain ⟨next, -, rest⟩ := bind_eq_ok_iff.mp followed
          exact ih rest
      · rename_i external _
        obtain ⟨ref, rfl⟩ := text_of_lookup followed
        exact (external ref rfl).elim

/-! ## Runs -/

/-- A trail is followed to its last value as long as no reference on it was met before. -/
theorem Trail.followWithin (trail : Trail document node refs last) (new : refs.Nodup)
    (unseen : ∀ ref ∈ refs, ref ∉ seen) (depth : Nat) :
    followWithin document (refs.length + depth) seen node =
      followWithin document depth (refs.reverse ++ seen) last := by
  induction trail generalizing seen with
  | here node => simp
  | @onward node ref next refs last cited found _ ih =>
      obtain ⟨fresh, new⟩ := List.nodup_cons.mp new
      have unseen' : ∀ other ∈ refs, other ∉ ref :: seen := by
        intro other member known
        rcases List.mem_cons.mp known with rfl | known
        · exact fresh member
        · exact unseen other (List.mem_cons_of_mem _ member) known
      rw [List.length_cons, Nat.add_right_comm, followWithin_of_text cited,
        if_neg (unseen ref List.mem_cons_self), found]
      simpa [bind, Except.bind] using ih new unseen'

theorem TrailEnd.followWithin {result : Except Failure Value}
    (ended : TrailEnd document seen last result) (depth : Nat) :
    followWithin document (depth + 1) seen last = result := by
  cases ended with
  | plain plain => exact followWithin_of_plain plain depth _
  | again cited met => rw [followWithin_of_text cited, if_pos met]
  | lost cited new missing =>
      rw [followWithin_of_text cited, if_neg new, missing]
      rfl

theorem TrailEnd.reached {result : Except Failure Value}
    (ended : TrailEnd document seen last result) :
    result ≠ .error (.defect .depthExhausted) := by
  cases ended with
  | plain _ => simp
  | again _ _ => simp
  | @lost ref failure _ _ missing =>
      have ends : Ends _ _ (Stops fun _ => False) := ends_lookup_text document ref
      cases ends.stops missing with
      | fault found => simp
      | defect impossible => exact impossible.elim

theorem Trail.follow_eq {result : Except Failure Value} (trail : Trail document node refs last)
    (new : refs.Nodup) (ended : TrailEnd document refs last result) :
    follow document node = result := by
  have ended' : TrailEnd document (refs.reverse ++ []) last result := ended.congr (by simp)
  have followed : Pointer.followWithin document (refs.length + (0 + 1)) [] node = result := by
    rw [trail.followWithin new (by simp), ended'.followWithin]
  rw [follow_eq_followWithin (by rw [followed]; exact ended.reached), followed]

/-- A bound that is not reached comes to the end of a trail. The induction is on the bound. -/
theorem exists_trailEnd {depth : Nat} (texts : CitesTexts document node)
    (reached : followWithin document depth seen node ≠ .error (.defect .depthExhausted)) :
    ∃ refs last result, Trail document node refs last ∧ refs.Nodup ∧ (∀ ref ∈ refs, ref ∉ seen) ∧
      TrailEnd document (refs ++ seen) last result := by
  induction depth generalizing seen node with
  | zero => simp [followWithin] at reached
  | succ depth ih =>
      cases cited : cited? node with
      | none => exact ⟨[], node, _, .here node, List.nodup_nil, by simp, .plain cited⟩
      | some target =>
          obtain ⟨ref, rfl⟩ := texts _ _ _ (.here node) cited
          rw [followWithin_of_text cited] at reached
          by_cases met : ref ∈ seen
          · exact ⟨[], node, _, .here node, List.nodup_nil, by simp, .again cited met⟩
          · rw [if_neg met] at reached
            cases found : lookup document (.text ref) with
            | error failure =>
                exact ⟨[], node, _, .here node, List.nodup_nil, by simp, .lost cited met found⟩
            | ok next =>
                rw [found] at reached
                obtain ⟨refs, last, result, trail, new, unseen, ended⟩ :=
                  ih (texts.onward cited found) reached
                have fresh : ref ∉ refs := fun member => unseen ref member List.mem_cons_self
                refine ⟨ref :: refs, last, result, .onward cited found trail,
                  List.nodup_cons.mpr ⟨fresh, new⟩, ?_, ended.congr ?_⟩
                · intro other member
                  rcases List.mem_cons.mp member with rfl | member
                  · exact met
                  · exact fun known => unseen other member (List.mem_cons_of_mem _ known)
                · intro other
                  simp only [List.mem_append, List.mem_cons]
                  tauto

/-- Following references from a node ends as the trail from it does. While no reference is met
twice, it goes on to the first value that is no reference, which is the result, to the first
reference that was followed before, which the fault names, or to the first one that cannot be
looked up, whose failure is passed on. If all references on the way are texts, one of the three is
met. The result is never a reference, and no larger bound on the steps would change it. -/
theorem follow_ends (document node : Value) :
    (∀ refs last result, Trail document node refs last → refs.Nodup →
      TrailEnd document refs last result → follow document node = result) ∧
    (CitesTexts document node → ∃ refs last, Trail document node refs last ∧ refs.Nodup ∧
      TrailEnd document refs last (follow document node)) ∧
    (∀ value, follow document node = .ok value → cited? value = none) ∧
    ∀ more, followWithin document (document.size + 3 + more) [] node = follow document node := by
  refine ⟨fun refs last result trail new ended => trail.follow_eq new ended, fun texts => ?_,
    fun value followed => cited?_of_followWithin followed, fun more => ?_⟩
  · obtain ⟨refs, last, result, trail, new, -, ended⟩ :=
      exists_trailEnd texts (follow_reached document node)
    rw [List.append_nil] at ended
    rw [trail.follow_eq new ended]
    exact ⟨refs, last, trail, new, ended⟩
  · exact followWithin_stable (Nat.le_add_right _ more) (follow_reached document node)

/-- An object that only refers to another place. -/
def pointerTo (ref : String) : Value := .ofFields [("$ref", .text ref)]

def limitNode : Value := .ofFields [("name", .text "limit")]

/-- References through a mapping and a list, and a place that refers to itself under another
spelling of its index. -/
def shelfDocument : Value := .ofFields [
  ("parameters", .ofFields [("Page", pointerTo "#/shared/0"), ("Limit", limitNode)]),
  ("shared", .list [pointerTo "#/parameters/Limit", pointerTo "#/shared/+1"])]

/-- One trail ends at the limit, the other one when a text is met again. -/
theorem follow_ends_shelfDocument :
    follow shelfDocument (pointerTo "#/parameters/Page") = .ok limitNode ∧
    cited? limitNode = none ∧
    (∃ refs last, Trail shelfDocument (pointerTo "#/parameters/Page") refs last ∧ refs.Nodup ∧
      TrailEnd shelfDocument refs last (.ok limitNode)) ∧
    follow shelfDocument (pointerTo "#/shared/1") =
      .error (.fault (.circularReference "#/shared/+1")) := by
  have toLimit : Trail shelfDocument (pointerTo "#/parameters/Page")
      ["#/parameters/Page", "#/shared/0", "#/parameters/Limit"] limitNode :=
    .onward rfl rfl (.onward rfl rfl (.onward rfl rfl (.here _)))
  have around : Trail shelfDocument (pointerTo "#/shared/1") ["#/shared/1", "#/shared/+1"]
      (pointerTo "#/shared/+1") :=
    .onward rfl rfl (.onward rfl rfl (.here _))
  obtain ⟨ends, exists_end, plain, -⟩ := follow_ends shelfDocument (pointerTo "#/parameters/Page")
  have limit := ends _ _ _ toLimit (by decide) (.plain rfl)
  have ended := exists_end (toLimit.citesTexts rfl)
  rw [limit] at ended
  refine ⟨limit, plain _ limit, ended, ?_⟩
  exact (follow_ends shelfDocument (pointerTo "#/shared/1")).1 _ _ _ around (by decide)
    (.again rfl (by decide))

end ApiBinding.Pointer
