import SchemaQuery.Proofs.Http.Listing
import SchemaQuery.Proofs.Plan.RoundTrip

/-!
# A query and its explanation

A query can be posted to be translated or to be explained.  The explanation is the translation
with the plan added, and both are what the pipeline makes of the query; where it rejects the
query, both requests are rejected alike, as they are when no query is read from the body.

The fingerprint in the answer is the hash of the very text that the explanation shows as the
plan.  So a client can check it against the bytes that it got, and whoever reads the plan from
the text and emits it has the SQL and the parameters of the answer again.

## Main definitions

* `Translation.Explained` - what an answer and an explanation say of a translation.

## Main statements

* `Digest.length_sha256`, `Digest.mem_hexDigits_of_mem_sha256` - a hash has sixty-four digits.
* `Server.query_and_explain_agree` - **both routes answer with the outcome of the translation,
  and the explanation adds the plan as it was hashed.**
-/

namespace SchemaQuery

/-! ## The digits of a hash -/

namespace Digest

theorem length_bigEndian (count n : Nat) : (bigEndian count n).length = count := by
  simp [bigEndian]

/-- A hash has thirty-two bytes, four for each word of the state. -/
theorem length_hashBytes (bytes : List UInt8) : (hashBytes bytes).length = 32 := by
  rw [hashBytes, List.length_flatMap, State.words]
  simp [length_bigEndian]

/-- **A hash has sixty-four digits.** -/
theorem length_sha256 (s : String) : (sha256 s).length = 64 := by
  rw [sha256, hexText, String.length_ofList, List.length_flatMap]
  simp [length_hashBytes]

/-- They are hexadecimal digits in lower case. -/
theorem mem_hexDigits_of_mem_sha256 {s : String} {c : Char} (h : c ∈ (sha256 s).toList) :
    c ∈ "0123456789abcdef".toList := by
  have hdigit : ∀ n < 16, Text.hexDigit n ∈ "0123456789abcdef".toList := by decide
  rw [sha256, hexText, String.toList_ofList, List.mem_flatMap] at h
  obtain ⟨byte, -, hc⟩ := h
  have hbyte : byte.toNat < 256 := byte.toNat_lt
  simp only [List.mem_cons, List.not_mem_nil, or_false] at hc
  rcases hc with rfl | rfl
  · exact hdigit _ (by omega)
  · exact hdigit _ (by omega)

end Digest

/-! ## Objects with one more member -/

open Json (Document Number Tree)

/-- The text of an object that gets one more last member goes on with the member where it
ended. -/
theorem Json.Tree.exists_front {members : List (String × Tree)} (hne : members ≠ [])
    (key : String) (value : Tree) :
    ∃ front, (Tree.object members).toText = front ++ "\x7d" ∧
      (Tree.object (members ++ [(key, value)])).toText
        = front ++ String.ofList (',' :: renderString key ++ [':']) ++ value.toText ++ "\x7d" := by
  refine ⟨String.ofList ('\x7b' :: renderMembers members), ?_, ?_⟩
  · rw [toText, render, String.ofList_append]
  · rw [toText, render, renderMembers_concat hne]
    apply String.toList_inj.mp
    simp [renderMember, toText]

/-! ## What the two routes say -/

/-- **What an answer and its explanation say of a translation.**  The answer consists of the
SQL, the parameters and the fingerprint.  The explanation is the answer with the text of the
plan as one more last member.  The fingerprint is the hash of this text, and the plan that the
text encodes is emitted as the SQL and the parameters; reading the text gives the plan, within
the limits that reading has. -/
structure Translation.Explained (t : Translation) (answer explanation : String) : Prop where
  members : answer = (Tree.object [("sql", .text t.sql), ("params", .array (t.params.map (·.tree))),
    ("fingerprint", .text t.fingerprint)]).toText
  plan : ∃ front, answer = front ++ "\x7d" ∧
    explanation = front ++ ",\"plan\":" ++ t.plan.toText ++ "\x7d"
  fingerprint : t.fingerprint = Digest.hexText (Digest.hashBytes t.plan.toText.toUTF8.toList)
  digits : t.fingerprint.length = 64 ∧
    ∀ c ∈ t.fingerprint.toList, c ∈ "0123456789abcdef".toList
  emitted : Sql.emit t.plan = .ok ⟨t.sql, t.params⟩
  read : t.plan.toTree.depth ≤ Document.maxDepth →
    (∀ x, Number.float x ∈ t.plan.toTree.numbers → (Number.float x).ReadsBack) →
    Plan.ofText t.plan.toText = .ok t.plan

theorem Translation.explained {registry : Registry} {q : Query} {t : Translation}
    (h : translate registry q = .ok t) :
    t.Explained (Http.translationTree t false).toText (Http.translationTree t true).toText where
  members := rfl
  plan := Tree.exists_front (List.cons_ne_nil _ _) "plan" t.plan.toTree
  fingerprint := rfl
  digits := ⟨Digest.length_sha256 _, fun _ => Digest.mem_hexDigits_of_mem_sha256⟩
  emitted := emit_of_translate h
  read := Plan.ofText_toText

namespace Http

namespace Server

variable {r r' : Request}

/-- **The routes for translations agree.**  Whatever servers with the same registry are asked,
both answer with what the pipeline makes of the query, the one with the SQL, the parameters
and the fingerprint, the other with the same and the plan.  A query that is not translated is
rejected with the same response, and so is a request from which no query is read: one that
does not announce JSON, or whose body is too long, no JSON, or JSON of another shape. -/
theorem query_and_explain_agree (s s' : Server) (hregistry : s'.registry = s.registry)
    (queried : r.Posts .query) (explained : r'.Posts .explain)
    (htype : r'.contentType = r.contentType) (hbody : r'.body = r.body) :
    (∀ q, r.query = .ok q →
      (∃ t answer explanation, translate s.registry q = .ok t ∧ t.Explained answer explanation ∧
        (s.handleRequest r).1 = ⟨200, some "application/json", answer, none⟩ ∧
        (s'.handleRequest r').1 = ⟨200, some "application/json", explanation, none⟩) ∨
      ∃ e, translate s.registry q = .error e ∧
        (s.handleRequest r).1 = jsonResponse 400 (failureTree e.kind e.message) ∧
        (s'.handleRequest r').1 = jsonResponse 400 (failureTree e.kind e.message)) ∧
    ∀ e, r.query = .error e →
      (s.handleRequest r).1 = jsonResponse 400 (failureTree .shapeError e.message) ∧
      (s'.handleRequest r').1 = jsonResponse 400 (failureTree .shapeError e.message) := by
  have hanswer : (s.handleRequest r).1 = translationResponse s.registry r.query false :=
    (handleRequest_posts queried rfl).trans (s.response_translateBody r false)
  have hexplanation : (s'.handleRequest r').1 = translationResponse s.registry r.query true := by
    rw [handleRequest_posts explained rfl, ← hregistry, Request.query, ← htype, ← hbody]
    exact s'.response_translateBody r' true
  rw [hanswer, hexplanation]
  constructor
  · intro q hquery
    rw [hquery, translationResponse, translationResponse]
    cases htranslated : translate s.registry q with
    | ok t => exact .inl ⟨t, _, _, rfl, Translation.explained htranslated, rfl, rfl⟩
    | error e => exact .inr ⟨e, rfl, rfl, rfl⟩
  · intro e hquery
    rw [hquery]
    exact ⟨rfl, rfl⟩

end Server

end Http

namespace Orders

open Http (Request)

/-- The same query, to be explained. -/
def explained (name : String) : Request := { asked name with target := "/query/explain" }

theorem posts_asked (name : String) : (asked name).Posts .query :=
  ⟨rfl, by show Http.Route.ofTarget? "/query" = _; decide⟩

theorem posts_explained (name : String) : (explained name).Posts .explain :=
  ⟨rfl, by show Http.Route.ofTarget? "/query/explain" = _; decide⟩

/-- A server for the orders. -/
def desk : Http.Server := .start registry "models.json" "noon"

/-- The plan for all orders. -/
def allPlan : Plan where
  root := ⟨"orders", "sales.orders", "t0", ⟨"t0", "status", .string⟩⟩
  select := []
  filters := none
  groupBy := []
  aggregates := []
  sort := []
  pagination := Plan.defaultPagination

end Orders

/-- All orders are translated and explained, and their plan is read back from its text.  A
model that does not exist is rejected by both routes. -/
theorem Http.Server.query_and_explain_agree_orders :
    (∃ (t : Translation) (answer explanation : String), t.Explained answer explanation ∧
        Plan.ofText t.plan.toText = .ok t.plan ∧
        (Orders.desk.handleRequest (Orders.asked "orders")).1
          = ⟨200, some "application/json", answer, none⟩ ∧
        (Orders.desk.handleRequest (Orders.explained "orders")).1
          = ⟨200, some "application/json", explanation, none⟩) ∧
      (Orders.desk.handleRequest (Orders.asked "invoices")).1
        = jsonResponse 400 (failureTree .unknownModel "model not found: invoices") ∧
      (Orders.desk.handleRequest (Orders.explained "invoices")).1
        = jsonResponse 400 (failureTree .unknownModel "model not found: invoices") := by
  obtain ⟨hknown, -⟩ := query_and_explain_agree Orders.desk Orders.desk rfl
    (Orders.posts_asked "orders") (Orders.posts_explained "orders") rfl rfl
  obtain ⟨hunknown, -⟩ := query_and_explain_agree Orders.desk Orders.desk rfl
    (Orders.posts_asked "invoices") (Orders.posts_explained "invoices") rfl rfl
  constructor
  · have hplan : Plan.ofQuery Orders.registry { model := "orders" } = .ok Orders.allPlan := by rfl
    have hlength : (Orders.asked "orders").body.length ≤ bodyLimit := by
      rw [Orders.body_asked]
      decide
    rcases hknown _ ((Orders.asksFor_asked "orders").query hlength) with
      ⟨t, answer, explanation, htranslated, hexplained, hanswer, hexplanation⟩ | ⟨e, hrejected, -⟩
    · have hsame : Orders.allPlan = t.plan :=
        Except.ok.inj (hplan.symm.trans (ofQuery_of_translate htranslated).2)
      have hread : Plan.ofText t.plan.toText = .ok t.plan := by
        refine hexplained.read ?_ ?_
        · rw [← hsame]
          decide
        · rw [← hsame]
          have hnumbers : ∀ n ∈ Orders.allPlan.toTree.numbers, n.ReadsBack := by decide +kernel
          exact fun x => hnumbers (.float x)
      exact ⟨t, answer, explanation, hexplained, hread, hanswer, hexplanation⟩
    · have haccepted : Query.validate Orders.registry { model := "orders" } = .ok () := by decide
      obtain ⟨plan, emitted, -, -, htranslated⟩ := translate_of_validate haccepted
      cases htranslated.symm.trans hrejected
  · have hrejected : translate Orders.registry { model := "invoices" }
        = .error (.validation (.unknownModel "invoices")) :=
      translate_of_validate_error rfl
    have hlength : (Orders.asked "invoices").body.length ≤ bodyLimit := by
      rw [Orders.body_asked]
      decide
    rcases hunknown _ ((Orders.asksFor_asked "invoices").query hlength) with
      ⟨t, -, -, htranslated, -⟩ | ⟨e, herror, hanswer, hexplanation⟩
    · cases hrejected.symm.trans htranslated
    · obtain rfl := Except.error.inj (hrejected.symm.trans herror)
      exact ⟨hanswer, hexplanation⟩

end SchemaQuery
