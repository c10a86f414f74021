import ApiBinding.Proofs.Operation.Added

/-! The records of a binding stand in the order of the parts of an operation: those first needed by
the path come first, then those of the query and the body, then those of the response. -/

namespace ApiBinding

/-! ## Records of a part -/

/-- A part that was settled and added only records of one kind puts them behind those before. -/
theorem Session.Settles.records_eq {before after : Session} {holds : Record TypeExpr → Prop}
    (settled : before.Settles after) (adds : before.Adds holds after)
    (nothing : ∀ name, ¬ before.catalog.Pending name) :
    ∃ added, after.catalog.records = before.catalog.records ++ added ∧
      ∀ record ∈ added, holds record := by
  obtain ⟨added, same, found⟩ :=
    settled.grows.catalog.records_eq settled.closed.catalog nothing
  refine ⟨added, same, ?_⟩
  intro record member
  obtain ⟨name, new, stored⟩ := found record member
  rcases adds stored with old | new
  · simp [Catalog.find?_eq_none_of_not_mem new] at old
  · exact new

theorem Session.Settles.nothing_pending {before after : Session} (settled : before.Settles after)
    (nothing : ∀ name, ¬ before.catalog.Pending name) (name : String) :
    ¬ after.catalog.Pending name :=
  fun pending => nothing name (settled.pending pending)

open Operation

namespace Site.Run

variable {site : Site} {binding : Binding TypeExpr}

theorem afterPath_pending (run : site.Run binding) (name : String) :
    ¬ run.afterPath.catalog.Pending name :=
  run.path_settles.1.nothing_pending Catalog.not_pending_empty name

theorem afterQuery_pending (run : site.Run binding) (name : String) :
    ¬ run.afterQuery.catalog.Pending name :=
  run.query_settles.1.nothing_pending run.afterPath_pending name

theorem afterBody_pending (run : site.Run binding) (name : String) :
    ¬ run.afterBody.catalog.Pending name :=
  run.body_settles.nothing_pending run.afterQuery_pending name

/-! ## Placements of a part -/

theorem path_adds (run : site.Run binding) :
    Session.empty.Adds (fun record => record.placement = some .path) run.afterPath := by
  refine (adding_groupRecord (typingAdds_generated _ site.stem) _ _ run.path).mono ?_
  rintro record (generated | group)
  · exact generated.placement
  · exact group.placement

theorem query_adds (run : site.Run binding) :
    run.afterPath.Adds (fun record => record.placement = some .body) run.afterQuery := by
  refine (adding_groupRecord (typingAdds_generated _ site.stem) _ _ run.query).mono ?_
  rintro record (generated | group)
  · exact generated.placement
  · exact group.placement

theorem body_adds (run : site.Run binding) :
    run.afterQuery.Adds (fun record => record.placement = some .body) run.afterBody := by
  refine (adding_body (typingAdds_generated _ _) _ _ _ _ _ run.typedBody).mono ?_
  rintro record (generated | ⟨-, group⟩)
  · exact generated.placement
  · exact group.placement

theorem response_adds (run : site.Run binding) :
    run.afterBody.Adds (fun record => record.placement = some .response) run.afterResponse :=
  (adding_responseType (typingAdds_generated _ _) _ _ _ run.response).mono
    fun _ => Synthesis.Generated.placement

end Site.Run

namespace Binding

/-- The records of a binding in three blocks, one for each placement. -/
structure Blocks (binding : Binding TypeExpr) (ofPath ofBody ofResponse : List (Record TypeExpr)) :
    Prop where
  records : binding.records = ofPath ++ ofBody ++ ofResponse
  path : ∀ record ∈ ofPath, record.placement = some .path
  body : ∀ record ∈ ofBody, record.placement = some .body
  response : ∀ record ∈ ofResponse, record.placement = some .response
  pathRecord : ∀ name, binding.pathRecord = some name → ∃ record ∈ ofPath, record.name = name
  queryRecord : ∀ name, binding.queryRecord = some name →
    ∃ record ∈ ofPath ++ ofBody, record.name = name

/-- Every record has a placement, and the records stand in the order path, body, response. The
group of path parameters is among those of the path, and that of the query is not behind those of
the body. -/
theorem records_in_order {document : Value} {path method : String} {options : Options}
    {lexicon : Name.Lexicon} {binding : Binding TypeExpr} {warnings : List Warning}
    (h : ofDocument document path method options lexicon = .ok (some binding, warnings)) :
    ∃ ofPath ofBody ofResponse, binding.Blocks ofPath ofBody ofResponse := by
  obtain ⟨site, -, ⟨run⟩⟩ := exists_run h
  obtain ⟨settledPath, inPath⟩ := run.path_settles
  obtain ⟨settledQuery, inQuery⟩ := run.query_settles
  obtain ⟨ofPath, recordsPath, placedPath⟩ :=
    settledPath.records_eq run.path_adds Catalog.not_pending_empty
  obtain ⟨ofQuery, recordsQuery, placedQuery⟩ :=
    settledQuery.records_eq run.query_adds run.afterPath_pending
  obtain ⟨ofBody, recordsBody, placedBody⟩ :=
    run.body_settles.records_eq run.body_adds run.afterQuery_pending
  obtain ⟨ofResponse, recordsResponse, placedResponse⟩ :=
    run.response_settles.records_eq run.response_adds run.afterBody_pending
  have nothing : Session.empty.catalog.records = [] := rfl
  rw [nothing, List.nil_append] at recordsPath
  refine ⟨ofPath, ofQuery ++ ofBody, ofResponse, ?_, placedPath, ?_, placedResponse, ?_, ?_⟩
  · rw [run.records, recordsResponse, recordsBody, recordsQuery, recordsPath]
    simp only [List.append_assoc]
  · intro record member
    rcases List.mem_append.mp member with member | member
    · exact placedQuery record member
    · exact placedBody record member
  · intro name named
    have mentioned : name ∈ run.afterPath.catalog.names := inPath (by simp [named])
    obtain ⟨record, member, own⟩ :=
      settledPath.closed.catalog.exists_record run.afterPath_pending mentioned
    exact ⟨record, recordsPath ▸ member, own⟩
  · intro name named
    have mentioned : name ∈ run.afterQuery.catalog.names := inQuery (by simp [named])
    obtain ⟨record, member, own⟩ :=
      settledQuery.closed.catalog.exists_record run.afterQuery_pending mentioned
    rw [recordsQuery, recordsPath] at member
    exact ⟨record, by simpa using (List.mem_append.mp member).imp_right .inl, own⟩

/-- A document with an order in a request and a receipt for it in the response. -/
def receiptDocument : Value :=
  .ofFields [
    ("definitions", .ofFields [
      ("Order", .ofFields [
        ("type", .text "object"),
        ("properties", .ofFields [("amount", .ofFields [("type", .text "integer")])])]),
      ("Receipt", .ofFields [
        ("type", .text "object"),
        ("properties", .ofFields [
          ("order", .ofFields [("$ref", .text "#/definitions/Order")])])])]),
    ("paths", .ofFields [
      ("/orders/\x7bid\x7d", .ofFields [
        ("put", .ofFields [
          ("parameters", .list [
            .ofFields [("name", .text "dry"), ("in", .text "query"), ("type", .text "boolean")],
            .ofFields [
              ("name", .text "order"), ("in", .text "body"),
              ("schema", .ofFields [("$ref", .text "#/definitions/Order")])]]),
          ("responses", .ofFields [
            ("200", .ofFields [
              ("schema", .ofFields [("$ref", .text "#/definitions/Receipt")])])])])])])]

/-- The order is first needed by the body, so it stays there although the response needs it too. -/
theorem records_in_order_of_receiptDocument :
    ∃ binding warnings,
      ofDocument receiptDocument "/orders/\x7bid\x7d" "PUT" {} .standard =
        .ok (some binding, warnings) ∧
      binding.records.map (fun record => (record.name, record.placement)) =
        [("PutOrdersIdPathVar", some .path), ("PutOrdersIdQuery", some .body),
          ("Order", some .body), ("Receipt", some .response)] ∧
      ∃ ofPath ofBody ofResponse, binding.Blocks ofPath ofBody ofResponse := by
  have computed :
      ((ofDocument receiptDocument "/orders/\x7bid\x7d" "PUT" {} .standard).toOption.bind
        (·.1)).map (fun binding =>
          binding.records.map fun record => (record.name, record.placement)) =
      some [("PutOrdersIdPathVar", some .path), ("PutOrdersIdQuery", some .body),
        ("Order", some .body), ("Receipt", some .response)] := by decide +kernel
  obtain ⟨binding, warnings, made, listed⟩ := exists_of_computed computed
  exact ⟨binding, warnings, made, listed, records_in_order made⟩

end Binding

end ApiBinding
