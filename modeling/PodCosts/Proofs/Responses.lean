import PodCosts.Proofs.Json.Values
import PodCosts.Remote

/-!
# What is made of a response

The data of a response is passed on only where the status is good and the body reads as a record
without errors. Where the body has a document as its data, and no errors, the reply is the text of
that document, whatever else the body has.
-/

namespace PodCosts

/-- Whether a node stands for a document: it is the document as it is written, or it is read as the
document although it is spelled in another way. -/
def Node.StandsFor (node : Node) (document : Json) : Prop :=
  node = document.toNode ∨ valueWithin? (depthLimit - 1) node = some document

/-- A node that stands for a document is read as it exactly where the document is not nested too
deeply. -/
theorem Node.StandsFor.valueWithin?_eq {node : Node} {document : Json}
    (h : node.StandsFor document) (hordered : document.Ordered)
    (hnumbers : document.NumbersSurvive) :
    valueWithin? (depthLimit - 1) node =
      if document.depth ≤ depthLimit - 1 then some document else none := by
  rcases h with rfl | hread
  · exact valueWithin?_toNode document hordered hnumbers (depthLimit - 1)
  · rw [hread, if_pos (depth_le_of_valueWithin? hread)]

/-- A node that stands for an object is not null. -/
theorem Node.StandsFor.optional?_eq {node : Node} {fields : List (String × Json)}
    (h : node.StandsFor (.object fields)) {α : Type} (read : Node → Option α) :
    optional? read node = (read node).map some := by
  cases node with
  | null =>
    rcases h with hwritten | hread
    · cases hwritten
    · cases hread
  | _ => rfl

namespace Response

variable {response : Response}

/-- The text of the data of a response. -/
def Content.bytes (content : Content) : List UInt8 :=
  Text.encode (content.data.getD (.object [])).compact

/-- A response of success that is no response record is malformed. -/
theorem reply_of_unreadable (hread : Node.decode? content? response.body = none)
    (hsuccess : response.isSuccess = true) :
    ∃ reason, response.reply = .error (.malformed reason) := by
  rw [reply, hread]
  exact ⟨_, if_pos hsuccess⟩

/-- A response of success without errors is replied to with its data. -/
theorem reply_of_content {content : Content}
    (hread : Node.decode? content? response.body = some content) (herrors : content.errors = [])
    (hsuccess : response.isSuccess = true) : response.reply = .ok content.bytes := by
  rw [reply, hread]
  simp only [herrors, hsuccess]
  rfl

/-- A failure of the status and an error in the body both count as a refusal. -/
theorem reply_of_failure (hfailure : ¬(response.isSuccess = true ∧
      ∀ content ∈ Node.decode? content? response.body, content.errors = [])) :
    ∃ message, response.reply = .error (.remote message) := by
  rw [reply]
  cases hread : Node.decode? content? response.body with
  | none =>
    have hstatus : ¬response.isSuccess = true := by
      intro hsuccess
      refine hfailure ⟨hsuccess, ?_⟩
      rw [hread]
      exact nofun
    exact ⟨_, if_neg hstatus⟩
  | some content =>
    rw [hread] at hfailure
    by_cases herrors : content.errors = []
    · have hstatus : (!response.isSuccess) = true := by
        by_contra hsuccess
        refine hfailure ⟨by simpa using hsuccess, ?_⟩
        rintro _ ⟨⟩
        exact herrors
      simp only [herrors, hstatus]
      exact ⟨_, rfl⟩
    · have hany : (!content.errors.isEmpty) = true := by simpa using herrors
      exact ⟨_, if_pos hany⟩

/-- There is data exactly where the status is good and the body is a record without errors, the form
is at fault exactly where the status is good and the body is no record, and every other response is
a refusal. -/
theorem reply_iff (response : Response) :
    (∀ bytes, response.reply = .ok bytes ↔ response.isSuccess = true ∧
      ∃ content, Node.decode? content? response.body = some content ∧ content.errors = [] ∧
        bytes = content.bytes) ∧
    ((∃ reason, response.reply = .error (.malformed reason)) ↔
      response.isSuccess = true ∧ Node.decode? content? response.body = none) ∧
    ((∃ message, response.reply = .error (.remote message)) ↔
      ¬(response.isSuccess = true ∧
        ∀ content ∈ Node.decode? content? response.body, content.errors = [])) := by
  by_cases hfine : response.isSuccess = true ∧
      ∀ content ∈ Node.decode? content? response.body, content.errors = []
  · obtain ⟨hsuccess, herrors⟩ := hfine
    cases hread : Node.decode? content? response.body with
    | none =>
      obtain ⟨reason, hreply⟩ := reply_of_unreadable hread hsuccess
      simp [hreply, hsuccess]
    | some content =>
      have hnone := herrors content hread
      have hreply := reply_of_content hread hnone hsuccess
      simp [hreply, hsuccess, hnone, eq_comm]
  · obtain ⟨message, hreply⟩ := reply_of_failure hfine
    refine ⟨fun bytes => ⟨?_, ?_⟩, ⟨?_, ?_⟩, fun _ => hfine, fun _ => ⟨message, hreply⟩⟩
    · intro hok
      rw [hreply] at hok
      cases hok
    · rintro ⟨hsuccess, content, hread, hnone, -⟩
      refine absurd ⟨hsuccess, ?_⟩ hfine
      rw [hread]
      rintro _ ⟨⟩
      exact hnone
    · rintro ⟨reason, hmalformed⟩
      rw [hreply] at hmalformed
      cases hmalformed
    · rintro ⟨hsuccess, hread⟩
      refine absurd ⟨hsuccess, ?_⟩ hfine
      rw [hread]
      exact nofun

/-! ## Bodies -/

/-- The fields of a body in which neither the data nor the errors stand twice. -/
theorem exists_fields?_of_length_le {members : List (String × Node)}
    (hdata : (members.filter fun member => member.1 == "data").length ≤ 1)
    (herrors : (members.filter fun member => member.1 == "errors").length ≤ 1) :
    ∃ known,
      Node.fields? ["data", "errors"]
          (.object (members.map fun member => (some member.1, member.2))) = some known ∧
        ∀ name ∈ ["data", "errors"], Fields.get? name known =
          (members.filter fun member => member.1 == name).head?.map Prod.snd := by
  refine Node.exists_fields?_of_filter fun name hname => ?_
  rcases List.mem_pair.mp hname with rfl | rfl
  · exact hdata
  · exact herrors

/-- A body is read from its fields. -/
theorem decode?_of_fields? {node : Node} {known : List (String × Node)}
    (hbody : Node.read? response.body = some node)
    (hknown : Node.fields? ["data", "errors"] node = some known) :
    Node.decode? content? response.body =
      (Node.field? known "data" none
          (Node.optional? (Node.valueWithin? (Node.depthLimit - 1)))).bind fun data =>
        (Node.field? known "errors" [] (Node.list? errorMessage? (Node.depthLimit - 1))).bind
          fun errors => some ⟨data, errors⟩ := by
  rw [Node.decode?, hbody]
  change content? Node.depthLimit node = _
  exact Node.record?_of_fields? hknown _ (Node.depthLimit - 1)

/-! ## Responses with errors -/

/-- The message of an error is the string under its name, whatever other members the error has. -/
theorem errorMessage?_of_filter {members : List (String × Node)} {message : String}
    (hmessage : (members.filter fun member => member.1 == "message") =
      [("message", .string (some message))]) (depth : Nat) :
    errorMessage? (depth + 1) (.object (members.map fun member => (some member.1, member.2))) =
      some message :=
  Node.record?_of_filter hmessage "" (fun _ => Node.text?) depth

/-- Whether a node is an error with the given message. -/
def Reports (node : Node) (message : String) : Prop :=
  ∃ members : List (String × Node),
    node = .object (members.map fun member => (some member.1, member.2)) ∧
      (members.filter fun member => member.1 == "message") = [("message", .string (some message))]

/-- A body with errors and without data is refused with the messages of all of its errors, in their
order, whatever its status and whatever other members it has. -/
theorem reply_of_errors {members : List (String × Node)} {items : List Node}
    {messages : List String}
    (hbody : Node.read? response.body =
      some (.object (members.map fun member => (some member.1, member.2))))
    (hdata : (members.filter fun member => member.1 == "data") = [])
    (herrors : (members.filter fun member => member.1 == "errors") = [("errors", .array items)])
    (hmessages : items.Forall₂ Reports messages) (hany : messages ≠ []) :
    response.reply = .error (.remote (Text.joined "; " messages)) := by
  obtain ⟨known, hknown, hvalues⟩ := exists_fields?_of_length_le (by simp [hdata])
    (by simp [herrors] : (members.filter fun member => member.1 == "errors").length ≤ 1)
  have hread : items.mapM (errorMessage? (Node.depthLimit - 2)) = some messages := by
    refine mapM_eq_some_of_forall₂ (hmessages.imp ?_)
    rintro _ message ⟨members, rfl, hmessage⟩
    exact errorMessage?_of_filter hmessage (Node.depthLimit - 3)
  have hcontent : Node.decode? content? response.body = some ⟨none, messages⟩ := by
    have hlist : Node.list? errorMessage? (Node.depthLimit - 1) (.array items) = some messages :=
      hread
    rw [decode?_of_fields? hbody hknown, Node.field?, Node.field?, hvalues "data" (by simp),
      hvalues "errors" (by simp), hdata, herrors]
    simp [hlist]
  rw [reply, hcontent]
  exact if_pos (by simpa using hany)

/-! ## Responses with a document -/

/-- Whether a body is an object with a document as its data and without errors, whatever other
fields it has. -/
def Carries (response : Response) (data : Json) : Prop :=
  ∃ (members : List (String × Node)) (node : Node),
    Node.read? response.body =
      some (.object (members.map fun member => (some member.1, member.2))) ∧
    (members.filter fun member => member.1 == "data") = [("data", node)] ∧ node.StandsFor data ∧
    ((members.filter fun member => member.1 == "errors") = [] ∨
      (members.filter fun member => member.1 == "errors") = [("errors", .array [])])

/-- A name that is not among fields is not among them once they are written. -/
theorem names_written {name : String} {others : List (String × Json)}
    (hname : name ∉ others.map Prod.fst) :
    name ∉ (others.map fun field => (field.1, field.2.toNode)).map Prod.fst := by
  rw [List.map_map]
  exact hname

/-- Written behind one another, a document and further fields make up a body that carries it. -/
theorem carries_compact {status : Nat} {data : Json} {others : List (String × Json)}
    (hfinite : (Json.object (("data", data) :: others)).Finite)
    (hdata : "data" ∉ others.map Prod.fst) (herrors : "errors" ∉ others.map Prod.fst) :
    Carries ⟨status, Text.encode (Json.object (("data", data) :: others)).compact⟩ data := by
  refine ⟨(("data", data) :: others).map fun field => (field.1, field.2.toNode), data.toNode, ?_,
    ?_, .inl rfl, .inl ?_⟩
  · rw [Json.read?_compact hfinite, Json.toNode, Json.toMembers_eq_map, List.map_map]
    rfl
  · have hothers := Fields.filter_eq_nil (names_written hdata)
    exact (List.filter_cons_of_pos rfl).trans (congrArg (("data", data.toNode) :: ·) hothers)
  · have hothers := Fields.filter_eq_nil (names_written herrors)
    rw [List.map_cons, List.filter_cons, if_neg (by simp)]
    exact hothers

/-- The fields of a body with data and without errors. -/
theorem exists_fields?_of_members {members : List (String × Node)} {node : Node}
    (hdata : (members.filter fun member => member.1 == "data") = [("data", node)])
    (herrors : (members.filter fun member => member.1 == "errors") = [] ∨
      (members.filter fun member => member.1 == "errors") = [("errors", .array [])]) :
    ∃ known,
      Node.fields? ["data", "errors"]
          (.object (members.map fun member => (some member.1, member.2))) = some known ∧
        Fields.get? "data" known = some node ∧
        Node.field? known "errors" [] (Node.list? errorMessage? (Node.depthLimit - 1)) =
          some [] := by
  have honce : (members.filter fun member => member.1 == "errors").length ≤ 1 := by
    rcases herrors with habsent | hempty
    · simp [habsent]
    · simp [hempty]
  obtain ⟨known, hknown, hvalues⟩ := exists_fields?_of_length_le (by simp [hdata]) honce
  refine ⟨known, hknown, ?_, ?_⟩
  · rw [hvalues "data" (by simp), hdata]
    rfl
  · rw [Node.field?, hvalues "errors" (by simp)]
    rcases herrors with habsent | hempty
    · rw [habsent]
      rfl
    · rw [hempty]
      rfl

/-- A body that carries a document is a record of that document exactly where the document is not
nested too deeply. -/
theorem decode?_of_carries {fields : List (String × Json)}
    (hcarries : response.Carries (.object fields)) (hordered : (Json.object fields).Ordered)
    (hnumbers : (Json.object fields).NumbersSurvive) :
    Node.decode? content? response.body =
      if (Json.object fields).depth ≤ Node.depthLimit - 1 then some ⟨some (.object fields), []⟩
      else none := by
  obtain ⟨members, node, hbody, hdata, hnode, herrors⟩ := hcarries
  obtain ⟨known, hknown, hvalue, hnone⟩ := exists_fields?_of_members hdata herrors
  have hread : Node.optional? (Node.valueWithin? (Node.depthLimit - 1)) node =
      if (Json.object fields).depth ≤ Node.depthLimit - 1 then some (some (.object fields))
      else none := by
    rw [hnode.optional?_eq, hnode.valueWithin?_eq hordered hnumbers]
    split_ifs <;> rfl
  rw [decode?_of_fields? hbody hknown, hnone, Node.field?, hvalue]
  simp only [hread]
  split_ifs <;> rfl

/-- A response that carries a document is replied to with the text of that document exactly if the
document lies within the limit on nesting as it stands in the response. -/
theorem reply_of_carries {fields : List (String × Json)} (hstatus : response.status = 200)
    (hcarries : response.Carries (.object fields)) (hordered : (Json.object fields).Ordered)
    (hnumbers : (Json.object fields).NumbersSurvive) :
    response.reply = .ok (Text.encode (Json.object fields).compact) ↔
      (Json.object [("data", .object fields)]).depth ≤ Node.depthLimit := by
  have hsuccess : response.isSuccess = true := by rw [isSuccess, hstatus]; rfl
  have hread := decode?_of_carries hcarries hordered hnumbers
  have hdepth : (Json.object [("data", .object fields)]).depth =
      (Json.object fields).depth + 1 := by
    rw [Json.depth, Json.fieldsDepth, Json.fieldsDepth, Nat.max_zero]
  have hlimit : Node.depthLimit = 127 := rfl
  rw [hdepth]
  constructor
  · intro hreply
    by_contra hdeep
    rw [if_neg (by omega)] at hread
    obtain ⟨reason, hmalformed⟩ := reply_of_unreadable hread hsuccess
    rw [hreply] at hmalformed
    cases hmalformed
  · intro hwithin
    rw [if_pos (by omega)] at hread
    have hreply := reply_of_content hread rfl hsuccess
    exact hreply

end Response

end PodCosts
