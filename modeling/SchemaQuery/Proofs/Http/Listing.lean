import SchemaQuery.Proofs.Http.Runs
import SchemaQuery.Proofs.Json.Reading
import SchemaQuery.Proofs.Schema.RoundTrip
import SchemaQuery.Proofs.Text.Utf8

/-!
# The routes agree on the models

A server lists its models, shows one by its name, translates queries of one, and counts them.
The routes look at the registry in different ways, but all of them answer from one list of
models, which has every model of the schema once, in the order of the bytes of the names.

## Main definitions

* `Request.Gets`, `Request.AsksFor` - a request to read a route, and a query for all of a
  model.
* `escape` - a text as a segment of a path.
* `ListedBy` - a list has the models of a schema.
* `Server.AnswersFrom` - the routes of a server answer from a list of models.

## Main statements

* `segmentText?_escape`, `asksFor_of_body` - every name can be asked for, in a path and in a
  body.
* `listedBy_sortedModels` - the models of a registry, sorted, are those of its schema.
* `Server.answersFrom_sortedModels` - **every route answers from the sorted models.**
* `Server.routes_agree` - **the routes agree on the models of the schema.**
-/

namespace SchemaQuery.Http

open Json (Document Tree)

/-! ## Requests -/

namespace Request

/-- A request to read a route. -/
structure Gets (r : Request) (route : Route) : Prop where
  method : r.method = "GET"
  route : Route.ofTarget? r.target = some route

/-- A posted query for everything of a model: its body is an object that has the name of the
model and no other member. -/
structure AsksFor (r : Request) (name : String) : Prop where
  method : r.method = "POST"
  route : Route.ofTarget? r.target = some .query
  json : announcesJson r.contentType = true
  body : ∃ rest, Document.parseStart? (bodyText r.body)
    = some (.object [(some "model", .text (some name))], rest)

variable {r : Request} {name : String}

theorem AsksFor.query (h : r.AsksFor name) (hlength : r.body.length ≤ bodyLimit) :
    r.query = .ok { model := name } := by
  obtain ⟨rest, hbody⟩ := h.body
  have hread : Document.decodeStart Query.ofDocument (bodyText r.body)
      = .ok ({ model := name }, rest) :=
    Document.decodeStart_eq_ok_iff.mpr ⟨_, hbody, rfl⟩
  rw [Request.query, if_pos h.json, queryOfBody, if_neg (Nat.not_lt.mpr hlength), hread]

/-- A body that is too long is not read, whatever it holds. -/
theorem query_of_tooLong (hjson : announcesJson r.contentType = true)
    (hlength : bodyLimit < r.body.length) : r.query = .error .tooLong := by
  rw [Request.query, if_pos hjson, queryOfBody, if_pos hlength]

end Request

/-! ## Names in bodies -/

/-- The text of a body is had back from its bytes. -/
theorem bodyText_toUTF8 (s : String) : bodyText s.toUTF8.toList = s.toList := by
  rw [bodyText, Text.symbols_toUTF8, List.flatMap_map]
  exact List.flatMap_singleton' s.toList

/-- Every name can be asked for in a body. -/
theorem asksFor_of_body {r : Request} (name : String) (hmethod : r.method = "POST")
    (hroute : Route.ofTarget? r.target = some .query) (hjson : announcesJson r.contentType = true)
    (hbody : r.body = (Tree.object [("model", .text name)]).toText.toUTF8.toList) :
    r.AsksFor name := by
  refine ⟨hmethod, hroute, hjson, [], ?_⟩
  rw [hbody, bodyText_toUTF8, Document.parseStart?_toText]
  rfl

/-! ## Names in paths -/

/-- A byte as an escape. -/
def escapeByte (byte : UInt8) : List Char :=
  ['%', Text.hexDigit (byte.toNat / 16), Text.hexDigit (byte.toNat % 16)]

/-- A text as a segment of a path, with every byte escaped. -/
def escape (s : String) : List Char := s.toUTF8.toList.flatMap escapeByte

theorem hexByte?_hexDigit {n : Nat} (h : n < 16) :
    hexByte? (byteOf (Text.hexDigit n)) = some n := by
  have hall : ∀ n < 16, hexByte? (byteOf (Text.hexDigit n)) = some n := by decide
  exact hall n h

theorem percentDecode_escapeByte (byte : UInt8) (rest : List UInt8) :
    percentDecode ((escapeByte byte).map byteOf ++ rest) = byte :: percentDecode rest := by
  have hlt : byte.toNat < 256 := byte.toNat_lt
  have hbyte : escapedByte? (byteOf (Text.hexDigit (byte.toNat / 16))
      :: byteOf (Text.hexDigit (byte.toNat % 16)) :: rest) = some byte := by
    rw [escapedByte?, hexByte?_hexDigit (by omega), hexByte?_hexDigit (by omega)]
    show some (UInt8.ofNat (byte.toNat / 16 * 16 + byte.toNat % 16)) = some byte
    rw [Nat.div_add_mod', UInt8.ofNat_toNat]
  show percentDecode (byteOf '%' :: _ :: _ :: rest) = _
  rw [percentDecode, if_pos rfl, hbyte]
  rfl

theorem percentDecode_escapeBytes (bytes : List UInt8) :
    percentDecode ((bytes.flatMap escapeByte).map byteOf) = bytes := by
  induction bytes with
  | nil => rw [List.flatMap_nil, List.map_nil, percentDecode]
  | cons byte rest ih => rw [List.flatMap_cons, List.map_append, percentDecode_escapeByte, ih]

/-- Escapes are written with a percent sign and hexadecimal digits. -/
theorem mem_escape {s : String} {c : Char} (h : c ∈ escape s) :
    c = '%' ∨ ∃ n < 16, c = Text.hexDigit n := by
  obtain ⟨byte, -, hc⟩ := List.mem_flatMap.mp h
  have hlt : byte.toNat < 256 := byte.toNat_lt
  simp only [escapeByte, List.mem_cons, List.not_mem_nil, or_false] at hc
  rcases hc with rfl | rfl | rfl
  · exact .inl rfl
  · exact .inr ⟨_, by omega, rfl⟩
  · exact .inr ⟨_, by omega, rfl⟩

theorem forall_mem_escape {P : Char → Prop} (hpercent : P '%')
    (hdigit : ∀ n < 16, P (Text.hexDigit n)) (s : String) : ∀ c ∈ escape s, P c := by
  intro c hc
  rcases mem_escape hc with rfl | ⟨n, hn, rfl⟩
  · exact hpercent
  · exact hdigit n hn

/-- **Every name can be asked for in a path.** -/
theorem segmentText?_escape (name : String) : segmentText? (escape name) = some name := by
  have hascii : ∀ c ∈ escape name, c.toNat < 0x80 :=
    forall_mem_escape (by decide) (by decide) name
  have hbytes : (String.ofList (escape name)).toUTF8.toList = (escape name).map byteOf := by
    rw [Text.toList_toUTF8, String.toList_ofList, List.map_eq_flatMap]
    exact List.flatMap_congr fun c hc => Text.utf8EncodeChar_of_lt (hascii c hc)
  rw [segmentText?, hbytes, escape, percentDecode_escapeBytes, Text.decode?_toUTF8]

/-- The path of a name that is not empty. -/
theorem ofTarget?_escape {name : String} (h : name ≠ "") :
    Route.ofTarget? (String.ofList ("/models/".toList ++ escape name))
      = some (.model (escape name)) := by
  have hfront : "/models/".toList.all (fun c => c ≠ '?' && c ≠ '#') = true := rfl
  have hplain : ∀ c ∈ "/models/".toList ++ escape name, (c ≠ '?' && c ≠ '#') = true :=
    List.forall_mem_append.mpr
      ⟨List.all_eq_true.mp hfront, forall_mem_escape (by decide) (by decide) name⟩
  have hpath : Route.pathOf (String.ofList ("/models/".toList ++ escape name))
      = "/models/".toList ++ escape name := by
    rw [Route.pathOf, String.toList_ofList]
    exact List.takeWhile_eq_self_iff.mpr hplain
  have hbelow : "/models/".toList.isPrefixOf ("/models/".toList ++ escape name) = true :=
    List.isPrefixOf_iff_prefix.mpr (List.prefix_append _ _)
  have hother (other : String) (hnot : "/models/".toList.isPrefixOf other.toList = false) :
      "/models/".toList ++ escape name ≠ other.toList := by
    intro heq
    rw [heq, hnot] at hbelow
    cases hbelow
  have hne : escape name ≠ [] := by
    intro hnil
    have hempty : escape "" = [] := by
      rw [escape, Text.toList_toUTF8]
      rfl
    have hread := segmentText?_escape name
    rw [hnil, ← hempty, segmentText?_escape] at hread
    exact h (Option.some.inj hread).symm
  have hslash : '/' ∉ escape name := fun hmem =>
    forall_mem_escape (P := (· ≠ '/')) (by decide) (by decide) name _ hmem rfl
  rw [Route.ofTarget?, hpath, if_neg (hother "/health" (by decide)),
    if_neg (hother "/models" (by decide)), if_neg (hother "/query" (by decide)),
    if_neg (hother "/query/explain" (by decide)), if_neg (hother "/admin/reload" (by decide)),
    if_neg (hother "/metrics" (by decide)), if_pos hbelow]
  show Route.ofSegment? (escape name) = _
  rw [Route.ofSegment?, if_neg]
  simp [hne, hslash]

/-! ## The list -/

/-- A list has the models of a schema document: every entry has one model, whose fields stand
in the order of the entry, and the names increase byte by byte. -/
structure ListedBy (schema : SchemaDocument) (models : List Model) : Prop where
  complete : ∃ declared, models.Perm declared ∧ List.Forall₂ Model.Describes declared schema.models
  increasing : models.Pairwise fun m n => m.key.toUTF8.toList < n.key.toUTF8.toList

theorem sortedModels_perm (registry : Registry) :
    registry.sortedModels.Perm registry.models.entries :=
  List.mergeSort_perm _ _

theorem mem_sortedModels {registry : Registry} {m : Model} :
    m ∈ registry.sortedModels ↔ m ∈ registry.models.entries :=
  (sortedModels_perm registry).mem_iff

theorem model?_of_mem_sortedModels {registry : Registry} {m : Model} {name : String}
    (h : m ∈ registry.sortedModels) (hname : m.key = name) : registry.model? name = some m :=
  Catalog.find?_eq_some_iff.mpr ⟨mem_sortedModels.mp h, hname⟩

theorem model?_of_forall_sortedModels {registry : Registry} {name : String}
    (h : ∀ m ∈ registry.sortedModels, m.key ≠ name) : registry.model? name = none := by
  refine Option.eq_none_iff_forall_ne_some.mpr fun m hm => ?_
  obtain ⟨hentry, hname⟩ := Catalog.find?_eq_some_iff.mp hm
  exact h m (mem_sortedModels.mpr hentry) hname

/-- **The sorted models of a registry are those of its schema.** -/
theorem listedBy_sortedModels {schema : SchemaDocument} {registry : Registry}
    (h : registry.Describes schema) : ListedBy schema registry.sortedModels where
  complete := ⟨_, sortedModels_perm registry, h⟩
  increasing := by
    have htrans (a b c : Model) (hab : decide (a.key ≤ b.key) = true)
        (hbc : decide (b.key ≤ c.key) = true) : decide (a.key ≤ c.key) = true :=
      decide_eq_true (String.le_trans (of_decide_eq_true hab) (of_decide_eq_true hbc))
    have htotal (a b : Model) : (decide (a.key ≤ b.key) || decide (b.key ≤ a.key)) = true := by
      rw [← Bool.decide_or]
      exact decide_eq_true (String.le_total a.key b.key)
    have hsorted : registry.sortedModels.Pairwise fun m n => decide (m.key ≤ n.key) = true :=
      List.pairwise_mergeSort htrans htotal registry.models.entries
    have hdistinct : registry.sortedModels.Pairwise fun m n => m.key ≠ n.key :=
      List.pairwise_map.mp
        (((sortedModels_perm registry).map Model.key).nodup_iff.mpr registry.models.distinct)
    refine (hsorted.and hdistinct).imp fun hle => ?_
    exact Text.toUTF8_lt_iff.mpr (lt_of_le_of_ne (of_decide_eq_true hle.1) hle.2)

/-! ## The routes -/

/-- The routes of a server answer from a list of models.  It is the list that is shown, a name
is found in a path or in a query exactly if the list has it, and the length of the list is
counted.  A query whose body is too long is refused, whether the list has the name or not. -/
structure Server.AnswersFrom (s : Server) (models : List Model) : Prop where
  listed : ∀ r : Request, r.Gets .models →
    (s.handleRequest r).1 = jsonResponse 200 (.array (models.map modelTree))
  found : ∀ (r : Request) (segment : List Char) (name : String), r.Gets (.model segment) →
    segmentText? segment = some name → ∀ m ∈ models, m.key = name →
      (s.handleRequest r).1 = jsonResponse 200 (modelTree m)
  missing : ∀ (r : Request) (segment : List Char) (name : String), r.Gets (.model segment) →
    segmentText? segment = some name → (∀ m ∈ models, m.key ≠ name) →
      (s.handleRequest r).1
        = jsonResponse 404 (failureTree .unknownModel ("model not found: " ++ name))
  translated : ∀ (r : Request) (name : String), name ≠ "" → r.AsksFor name →
    r.body.length ≤ bodyLimit → (∃ m ∈ models, m.key = name) →
      ∃ t, translate s.registry { model := name } = .ok t ∧
        (s.handleRequest r).1 = jsonResponse 200 (translationTree t false)
  rejected : ∀ (r : Request) (name : String), name ≠ "" → r.AsksFor name →
    r.body.length ≤ bodyLimit → (∀ m ∈ models, m.key ≠ name) →
      (s.handleRequest r).1
        = jsonResponse 400 (failureTree .unknownModel ("model not found: " ++ name))
  refused : ∀ (r : Request) (name : String), r.AsksFor name → bodyLimit < r.body.length →
    (s.handleRequest r).1 = jsonResponse 400 (failureTree .shapeError BodyError.tooLong.message)
  counted : ∀ r : Request, r.Gets .health →
    (s.handleRequest r).1 = jsonResponse 200 (.object [("models", .ofInt models.length),
      ("started_at", .text s.startedAt), ("status", .text "ok")])

/-- A query for everything of a model is accepted if there is such a model. -/
theorem validate_model (registry : Registry) {name : String} (h : name ≠ "") :
    Query.validate registry { model := name } =
      match registry.model? name with
      | none => .error (.unknownModel name)
      | some _ => .ok () := by
  have hname : Validation.demand (name ≠ "") (.shape .modelMissing) = .ok () :=
    Validation.demand_eq_ok_iff.mpr h
  rw [Query.validate]
  show (Validation.demand (name ≠ "") _ >>= fun _ => _) = _
  rw [hname]
  cases registry.model? name <;> rfl

namespace Server

variable {s : Server} {r : Request}

theorem handleRequest_gets {route : Route} (h : r.Gets route) (haccess : route.access = .read) :
    (s.handleRequest r).1 = (s.answer r route).1.response s.startedAt := by
  have hadmits : route.access.admits r.method = true := by
    rw [haccess, h.method]
    rfl
  have hhead : r.method ≠ "HEAD" := by
    rw [h.method]
    decide
  rw [handleRequest_of_answer h.route hadmits hhead]

/-- A query for everything of a model is translated if it is accepted, and else rejected with
the reason that validation has. -/
theorem handleRequest_asksFor {name : String} (h : r.AsksFor name)
    (hlength : r.body.length ≤ bodyLimit) :
    (∃ t, translate s.registry { model := name } = .ok t ∧
        (s.handleRequest r).1 = jsonResponse 200 (translationTree t false)) ∨
      ∃ e, Query.validate s.registry { model := name } = .error e ∧
        (s.handleRequest r).1 = jsonResponse 400 (failureTree e.kind e.message) := by
  rw [handleRequest_posts ⟨h.method, h.route⟩ rfl, answer, response_translateBody,
    h.query hlength, translationResponse]
  cases hvalid : Query.validate s.registry { model := name } with
  | ok =>
      obtain ⟨plan, emitted, -, -, htranslated⟩ := translate_of_validate hvalid
      rw [htranslated]
      exact .inl ⟨_, rfl, rfl⟩
  | error e =>
      rw [translate_of_validate_error hvalid]
      exact .inr ⟨e, rfl, rfl⟩

/-- **Every route answers from the sorted models of the registry in force.** -/
theorem answersFrom_sortedModels (s : Server) : s.AnswersFrom s.registry.sortedModels where
  listed _ hr := handleRequest_gets hr rfl
  found := by
    intro r segment name hr hsegment m hm hname
    rw [handleRequest_gets hr rfl, answer, modelReply, hsegment]
    simp only [model?_of_mem_sortedModels hm hname]
    rfl
  missing := by
    intro r segment name hr hsegment hnone
    rw [handleRequest_gets hr rfl, answer, modelReply, hsegment]
    simp only [model?_of_forall_sortedModels hnone]
    rfl
  translated := by
    intro r name hname hr hlength ⟨m, hm, hkey⟩
    have hvalid : Query.validate s.registry { model := name } = .ok () := by
      rw [validate_model _ hname, model?_of_mem_sortedModels hm hkey]
    rcases handleRequest_asksFor (s := s) hr hlength with htranslated | ⟨e, hrejected, -⟩
    · exact htranslated
    · cases hvalid.symm.trans hrejected
  rejected := by
    intro r name hname hr hlength hnone
    have hinvalid : Query.validate s.registry { model := name } = .error (.unknownModel name) := by
      rw [validate_model _ hname, model?_of_forall_sortedModels hnone]
    rcases handleRequest_asksFor (s := s) hr hlength with
      ⟨t, htranslated, -⟩ | ⟨e, hrejected, hresponse⟩
    · cases (translate_of_validate_error hinvalid).symm.trans htranslated
    · obtain rfl := Except.error.inj (hinvalid.symm.trans hrejected)
      exact hresponse
  refused := by
    intro r name hr hlength
    rw [handleRequest_posts ⟨hr.method, hr.route⟩ rfl, answer, response_translateBody,
      Request.query_of_tooLong hr.json hlength]
    rfl
  counted := by
    intro r hr
    have hlength : s.registry.size = s.registry.sortedModels.length :=
      (sortedModels_perm s.registry).length_eq.symm
    rw [handleRequest_gets hr rfl, answer, hlength]
    rfl

/-- **The routes agree on the models of the schema**, whatever registry is in force: they
answer from one list, which has the models of the schema once each in the order of the bytes
of their names. -/
theorem routes_agree {schema : SchemaDocument} (built : Registry.ofSchema schema = .ok s.registry) :
    ListedBy schema s.registry.sortedModels ∧ s.AnswersFrom s.registry.sortedModels :=
  ⟨listedBy_sortedModels (Registry.ofSchema_eq_ok_iff.mp built), s.answersFrom_sortedModels⟩

end Server

end SchemaQuery.Http

namespace SchemaQuery

namespace Orders

open Http (Request escape)

/-- A request for the list of models. -/
def list : Request := ⟨"GET", "/models", none, [], .zero false⟩

/-- A request for one model. -/
def shown (name : String) : Request :=
  ⟨"GET", String.ofList ("/models/".toList ++ escape name), none, [], .zero false⟩

/-- A query for everything of a model. -/
def asked (name : String) : Request :=
  ⟨"POST", "/query", some "application/json",
    (Json.Tree.object [("model", .text name)]).toText.toUTF8.toList, .zero false⟩

theorem gets_shown {name : String} (h : name ≠ "") : (shown name).Gets (.model (escape name)) :=
  ⟨rfl, Http.ofTarget?_escape h⟩

theorem asksFor_asked (name : String) : (asked name).AsksFor name := by
  have hroute : Http.Route.ofTarget? "/query" = some .query := by decide
  have hjson : Http.announcesJson (some "application/json") = true := by decide
  exact Http.asksFor_of_body name rfl hroute hjson rfl

theorem body_asked (name : String) : (asked name).body
    = (Json.Tree.object [("model", .text name)]).render.flatMap String.utf8EncodeChar := by
  show (Json.Tree.object [("model", .text name)]).toText.toUTF8.toList = _
  rw [Text.toList_toUTF8, Json.Tree.toText, String.toList_ofList]

/-- A body has more bytes than the name in it has characters. -/
theorem length_lt_length_body (name : String) : name.toList.length < (asked name).body.length := by
  have hstring : name.toList.length < (Json.renderString name).length := by
    have hescaped : name.toList.length ≤ (name.toList.flatMap Json.escapeChar).length :=
      Text.length_le_length_flatMap fun c _ => Json.escapeChar_ne_nil c
    rw [Json.renderString, List.length_append, List.length_cons]
    omega
  have hbytes : (Json.Tree.object [("model", .text name)]).render.length
      ≤ (asked name).body.length := by
    rw [body_asked]
    exact Text.length_le_length_flatMap fun _ _ => String.utf8EncodeChar_ne_nil
  simp only [Json.Tree.render, Json.Tree.renderMembers, List.length_append, List.length_cons]
    at hbytes
  omega

/-- A name of two mebibytes. -/
def longName : String := String.ofList (List.replicate Http.bodyLimit 'a')

theorem length_longName : longName.toList.length = Http.bodyLimit := by
  rw [longName, String.toList_ofList, List.length_replicate]

theorem bodyLimit_lt_longName : Http.bodyLimit < (asked longName).body.length :=
  lt_of_eq_of_lt length_longName.symm (length_lt_length_body longName)

theorem sortedModels_registry : registry.sortedModels = [model] := List.mergeSort_singleton model

end Orders

/-- The one model is listed, shown and queried; a name that is no identifier is known
nowhere. -/
theorem Http.Server.routes_agree_orders :
    Registry.ofSchema Orders.registry.schema = .ok Orders.registry ∧
      ListedBy Orders.registry.schema [Orders.model] ∧
      ∀ s, s = start Orders.registry "models.json" "noon" →
        (s.handleRequest Orders.list).1 = jsonResponse 200 (.array [modelTree Orders.model]) ∧
        (s.handleRequest (Orders.shown "orders")).1 = jsonResponse 200 (modelTree Orders.model) ∧
        (s.handleRequest (Orders.shown "über/uns")).1
          = jsonResponse 404 (failureTree .unknownModel "model not found: über/uns") ∧
        (∃ t, (s.handleRequest (Orders.asked "orders")).1
          = jsonResponse 200 (translationTree t false)) ∧
        (s.handleRequest (Orders.asked "über/uns")).1
          = jsonResponse 400 (failureTree .unknownModel "model not found: über/uns") ∧
        (s.handleRequest (Orders.asked Orders.longName)).1
          = jsonResponse 400 (failureTree .shapeError BodyError.tooLong.message) := by
  have built : Registry.ofSchema Orders.registry.schema = .ok Orders.registry :=
    Registry.ofSchema_eq_ok_iff.mpr Orders.registry.describes_schema
  have hagree := routes_agree (s := start Orders.registry "models.json" "noon") built
  rw [registry_start, Orders.sortedModels_registry] at hagree
  obtain ⟨hlisted, hanswers⟩ := hagree
  have hlist : Orders.list.Gets .models := ⟨rfl, by decide⟩
  have hknown : Orders.model ∈ [Orders.model] := List.mem_cons_self
  have hunknown : ∀ m ∈ [Orders.model], m.key ≠ "über/uns" := by decide
  have hname : "orders" ≠ "" := by decide
  have hname' : "über/uns" ≠ "" := by decide
  have hlength : (Orders.asked "orders").body.length ≤ bodyLimit := by
    rw [Orders.body_asked]
    decide
  have hlength' : (Orders.asked "über/uns").body.length ≤ bodyLimit := by
    rw [Orders.body_asked]
    decide
  refine ⟨built, hlisted, ?_⟩
  rintro s rfl
  obtain ⟨t, -, htranslated⟩ := hanswers.translated (Orders.asked "orders") "orders" hname
    (Orders.asksFor_asked "orders") hlength ⟨Orders.model, hknown, rfl⟩
  exact ⟨hanswers.listed _ hlist,
    hanswers.found (Orders.shown "orders") (escape "orders") "orders" (Orders.gets_shown hname)
      (segmentText?_escape "orders") Orders.model hknown rfl,
    hanswers.missing (Orders.shown "über/uns") (escape "über/uns") "über/uns"
      (Orders.gets_shown hname') (segmentText?_escape "über/uns") hunknown,
    ⟨t, htranslated⟩,
    hanswers.rejected (Orders.asked "über/uns") "über/uns" hname'
      (Orders.asksFor_asked "über/uns") hlength' hunknown,
    hanswers.refused (Orders.asked Orders.longName) Orders.longName
      (Orders.asksFor_asked Orders.longName) Orders.bodyLimit_lt_longName⟩

/-- **Not every name that is missing in the list is called unknown in a query**: one of two
mebibytes makes the body too long. -/
theorem Http.Server.not_forall_unknown_rejected :
    ¬ ∀ (s : Server) (r : Request) (name : String), name ≠ "" → r.AsksFor name →
      (∀ m ∈ s.registry.sortedModels, m.key ≠ name) →
      (s.handleRequest r).1
        = jsonResponse 400 (failureTree .unknownModel ("model not found: " ++ name)) := by
  intro hall
  have hunknown : ∀ m ∈ (start Orders.registry "models.json" "noon").registry.sortedModels,
      m.key ≠ Orders.longName := by
    rw [registry_start, Orders.sortedModels_registry]
    intro m hm heq
    obtain rfl := List.mem_singleton.mp hm
    have hlength : Orders.model.key.toList.length = bodyLimit := by
      rw [heq, Orders.length_longName]
    exact absurd hlength (by decide)
  have hne : Orders.longName ≠ "" := by
    intro heq
    have hlength := Orders.length_longName
    rw [heq] at hlength
    exact absurd hlength (by decide)
  have hrejected := hall _ (Orders.asked Orders.longName) Orders.longName hne
    (Orders.asksFor_asked Orders.longName) hunknown
  have hrefused := (answersFrom_sortedModels (start Orders.registry "models.json" "noon")).refused
    (Orders.asked Orders.longName) Orders.longName (Orders.asksFor_asked Orders.longName)
    Orders.bodyLimit_lt_longName
  -- the two responses name different kinds of failures
  have htext := congrArg Response.body (hrejected.symm.trans hrefused)
  have htree := Json.Tree.toText_inj.mp htext
  simp [failureTree, ErrorKind.name, Json.Tree.written] at htree

end SchemaQuery
