import PodCosts.Command
import PodCosts.Proofs.Failures
import PodCosts.Proofs.Json.Indented
import PodCosts.Proofs.Number.Order
import PodCosts.Proofs.Records.Depth

/-!
# What commands write

A command writes one document and a new line, or it fails and writes nothing. Documents are
indented, and they are read as the results they were written from: what lookups give back was
accepted deep inside an answer, so it is accepted as a document of its own.
-/

namespace PodCosts

/-! ## Equal records -/

/-- Zero in place of minus zero is an equal number. -/
theorem Number.unsigned_beq {x : Float} (hx : x.isFinite = true) :
    (unsigned x == x) = true := by
  unfold unsigned
  split_ifs with hzero
  · have hfinite : (0 : Float).isFinite = true := by decide +kernel
    rw [beq_iff_exactValue_eq hfinite hx]
    exact ((beq_iff_exactValue_eq hx hfinite).mp hzero).symm
  · exact (beq_iff_exactValue_eq hx hx).mpr rfl

namespace Hierarchy

mutual

/-- Whether two nodes hold equal texts, equal numbers and equal children. -/
def same : Hierarchy → Hierarchy → Bool
  | .mk name type children cpu memory storage cpuCost memoryCost storageCost,
    .mk name' type' children' cpu' memory' storage' cpuCost' memoryCost' storageCost' =>
    name == name' && type == type' && sameAll children children' && cpu == cpu' &&
      memory == memory' && storage == storage' && cpuCost == cpuCost' &&
      memoryCost == memoryCost' && storageCost == storageCost'

/-- Whether two lists hold equal nodes one by one. -/
def sameAll : List Hierarchy → List Hierarchy → Bool
  | [], [] => true
  | node :: nodes, other :: others => node.same other && sameAll nodes others
  | _, _ => false

end

mutual

/-- A node with zero in place of every minus zero is an equal node. -/
theorem same_unsigned (node : Hierarchy) (h : ∀ x ∈ node.numbers, x.isFinite = true) :
    node.unsigned.same node = true := by
  match node with
  | .mk name type children cpu memory storage cpuCost memoryCost storageCost =>
    obtain ⟨hchildren, hown⟩ := List.forall_mem_append.mp h
    have hlist := sameAll_unsignedAll children hchildren
    simp only [List.forall_mem_cons] at hown
    obtain ⟨hcpu, hmemory, hstorage, hcpuCost, hmemoryCost, hstorageCost, -⟩ := hown
    simp only [unsigned, same, hlist, beq_self_eq_true, Number.unsigned_beq, hcpu, hmemory,
      hstorage, hcpuCost, hmemoryCost, hstorageCost, Bool.and_self]

/-- Nodes with zero in place of every minus zero are equal nodes, one by one. -/
theorem sameAll_unsignedAll (nodes : List Hierarchy)
    (h : ∀ x ∈ numbersAll nodes, x.isFinite = true) :
    sameAll (unsignedAll nodes) nodes = true := by
  match nodes with
  | [] => rfl
  | node :: nodes =>
    obtain ⟨hnode, hnodes⟩ := List.forall_mem_append.mp h
    simp only [unsignedAll, sameAll, same_unsigned node hnode, sameAll_unsignedAll nodes hnodes,
      Bool.and_self]

end

end Hierarchy

/-! ## Documents -/

/-- A record that was accepted as a whole document comes back from its indented text. -/
theorem Codec.decode?_pretty {α : Type} {codec : Codec α}
    (hlawful : codec.LawfulAt Node.depthLimit) (hfinite : codec.WritesFinite) {node : Node}
    {value : α} (hread : codec.read Node.depthLimit node = some value)
    (hback : codec.ReadsBack value) :
    Node.decode? codec.read (Text.encode (codec.write value).pretty) =
      some (codec.unsigned value) := by
  rw [Node.decode?, Json.read?_pretty (hfinite value hback)]
  exact hlawful node value hread hback

/-- Strings come back from their list. -/
theorem Node.decode?_texts (texts : List String) :
    Node.decode? (Node.list? fun _ => Node.text?)
      (Text.encode (Json.array (texts.map .string)).pretty) = some texts := by
  have hfinite : (Json.array (texts.map .string)).Finite :=
    Json.itemsFinite_iff.mpr (List.forall_mem_map.mpr fun _ _ => trivial)
  have hitems : ∀ text ∈ texts, Node.text? (Json.string text).toNode = some (id text) :=
    fun _ _ => rfl
  rw [Node.decode?, Json.read?_pretty hfinite, Option.bind_eq_bind, Option.bind_some,
    Node.depthLimit, Node.list?_toNode, List.mapM_map]
  exact (mapM_eq_some_map hitems).trans (congrArg some (List.map_id texts))

/-- An empty object is a blank node. -/
theorem Hierarchy.ofNode?_empty (depth : Nat) :
    ofNode? (depth + 1) (.object []) = some Hierarchy.blank := by
  rw [ofNode?_eq_record?]
  rfl

/-- A node makes up a view. -/
theorem HierarchyView.ofNode?_of_data {depth : Nat} {node : Node} {data : Hierarchy}
    (h : Hierarchy.ofNode? depth node = some data) :
    ofNode? (depth + 1) (.object [(some "data", node)]) = some ⟨data⟩ := by
  have hfields : Node.fields? ["data"] (.object [(some "data", node)]) =
      some [("data", node)] := by
    simp [Node.fields?, Node.distinct]
  rw [ofNode?]
  refine (Node.record?_of_fields? hfields _ depth).trans ?_
  rw [Fields.get?_cons_self, Option.bind_eq_bind, Option.bind_some, h]
  rfl

namespace Lookup

section Accepted

variable {α : Type} {key : String} {read : Nat → Node → Option α} {reply : Reply}
  {records : List α}

/-- The records of a reply were accepted as a list one level below the top of the answer. -/
theorem exists_list?_of_recordsOf (h : recordsOf key read reply = .ok records) :
    ∃ depth node, Node.depthLimit = depth + 1 ∧ Node.list? read depth node = some records := by
  cases reply with
  | error error => cases h
  | ok bytes =>
    rw [recordsOf, readAnswer] at h
    cases hdecode : Node.decode? (Node.answer? key read) bytes with
    | none =>
      rw [hdecode] at h
      cases h
    | some decoded =>
      rw [hdecode] at h
      cases h
      obtain ⟨top, -, hanswer⟩ := Option.bind_eq_some_iff.mp hdecode
      obtain ⟨depth, fields, hdepth, hfield⟩ := Node.exists_of_record? hanswer
      rw [Node.field?] at hfield
      cases hget : Fields.get? key fields with
      | none =>
        rw [hget] at hfield
        cases hfield
        exact ⟨126, .array [], rfl, rfl⟩
      | some node =>
        rw [hget] at hfield
        exact ⟨depth, node, hdepth, hfield⟩

/-- Each record of a reply was accepted two levels below the top of the answer. -/
theorem exists_read_of_recordsOf (h : recordsOf key read reply = .ok records) :
    ∀ record ∈ records,
      ∃ depth node, Node.depthLimit = depth + 2 ∧ read depth node = some record := by
  intro record hrecord
  obtain ⟨depth, node, hdepth, hlist⟩ := exists_list?_of_recordsOf h
  cases depth with
  | zero => cases node <;> cases hlist
  | succ depth =>
    cases node with
    | array items =>
      obtain ⟨item, -, hitem⟩ := exists_of_mem_forall₂ (forall₂_of_mapM_eq_some hlist) hrecord
      exact ⟨depth, item, hdepth, hitem⟩
    | _ => cases hlist

end Accepted

/-- The blank view is accepted as a document of its own. -/
theorem exists_ofNode?_blank :
    ∃ node, HierarchyView.ofNode? Node.depthLimit node = some HierarchyView.blank :=
  ⟨_, HierarchyView.ofNode?_of_data (Hierarchy.ofNode?_empty 125)⟩

/-- What is shown from a reply is a view that is accepted as a document of its own. -/
theorem ShownFrom.exists_ofNode? {reply : Reply} {view : HierarchyView}
    (h : ShownFrom reply view) :
    ∃ node, HierarchyView.ofNode? Node.depthLimit node = some view := by
  obtain ⟨hfirst, hnone, herror⟩ := h
  rcases hrecords : recordsOf Request.parentBlock Hierarchy.ofNode? reply
    with error | _ | ⟨data, others⟩
  · rw [herror error hrecords]
    exact exists_ofNode?_blank
  · rw [hnone hrecords]
    exact exists_ofNode?_blank
  · rw [hfirst data others hrecords]
    obtain ⟨depth, node, hdepth, hnode⟩ :=
      exists_read_of_recordsOf hrecords data List.mem_cons_self
    have hdeeper : Hierarchy.ofNode? (depth + 1) node = some data :=
      Hierarchy.widens depth node data hnode
    rw [hdepth]
    exact ⟨_, HierarchyView.ofNode?_of_data hdeeper⟩

/-- Every hierarchy that is given back is accepted as a document of its own. -/
theorem exists_ofNode?_hierarchy (store : Store) (journal : Journal) (target : Target) :
    ∃ node, HierarchyView.ofNode? Node.depthLimit node =
      some ((hierarchy target).run store journal).1 := by
  cases target with
  | all => exact exists_ofNode?_blank
  | named name =>
    exact (shownFrom_view store journal (Request.hierarchy name) "hierarchy" name).1.exists_ofNode?

/-- Every hierarchy with costs that is given back is accepted as a document of its own. -/
theorem exists_ofNode?_costHierarchy (store : Store) (journal : Journal) (terms : Terms)
    (target : Target) :
    ∃ node, HierarchyView.ofNode? Node.depthLimit node =
      some ((costHierarchy terms target).run store journal).1 := by
  cases target with
  | all => exact exists_ofNode?_blank
  | named name => exact (run_costHierarchy_named store journal terms name).2.1.exists_ofNode?

/-- The pods that are given back are accepted as a document of their own. -/
theorem exists_list?_livePods {store : Store} {journal : Journal} {pods : List Pod}
    (h : (livePods.run store journal).1 = .ok pods) :
    ∃ node, Node.list? Pod.ofNode? Node.depthLimit node = some pods := by
  rw [run_livePods] at h
  obtain ⟨depth, node, hdepth, hlist⟩ := exists_list?_of_recordsOf h
  rw [hdepth]
  exact ⟨node, Node.widens_list? (fun inner _ => Pod.widens inner) node pods hlist⟩

end Lookup

namespace Command

/-- Whether a document shows a view: it is the text of the view, and where the texts of its numbers
are read as they were, it is read as the view, up to the signs of zeros. -/
def ShowsView (view : HierarchyView) (document : List UInt8) : Prop :=
  document = Text.encode view.toJson.pretty ∧
    (HierarchyView.codec.ReadsBack view →
      Node.decode? HierarchyView.ofNode? document = some ⟨view.data.unsigned⟩ ∧
        view.data.unsigned.same view.data = true)

/-- Whether a document shows pods: it is the text of their list, and where the texts of their
numbers and times are read as they were, it is read as these pods. -/
def ShowsPods (pods : List Pod) (document : List UInt8) : Prop :=
  document = Text.encode (Json.array (pods.map Pod.toJson)).pretty ∧
    (Pod.codec.list.ReadsBack pods →
      Node.decode? (Node.list? Pod.ofNode?) document = some pods)

/-- A view that is accepted as a document is shown by its own text. -/
theorem showsView_of_ofNode? {node : Node} {view : HierarchyView}
    (h : HierarchyView.ofNode? Node.depthLimit node = some view) :
    ShowsView view (Text.encode view.toJson.pretty) := by
  refine ⟨rfl, fun hback => ⟨?_, ?_⟩⟩
  · exact Codec.decode?_pretty (HierarchyView.lawfulAt _) HierarchyView.writesFinite h hback
  · exact Hierarchy.same_unsigned view.data fun x hx => (hback.1 x hx).finite

/-- Pods that are accepted as a document are shown by the text of their list. -/
theorem showsPods_of_list? {node : Node} {pods : List Pod}
    (h : Node.list? Pod.ofNode? Node.depthLimit node = some pods) :
    ShowsPods pods (Text.encode (Json.array (pods.map Pod.toJson)).pretty) := by
  refine ⟨rfl, fun hback => ?_⟩
  have hagain := Codec.decode?_pretty (Codec.list_lawfulAt fun _ _ => Pod.lawfulAt _)
    (Codec.list_writesFinite Pod.writesFinite) h hback
  rwa [show Pod.codec.list.unsigned pods = pods from List.map_id pods] at hagain

/-- What is written is the indented text of the document and one line break. -/
theorem shown_eq (document : Json) :
    shown document = Text.encode document.pretty ++ Text.encode "\n" := by
  rw [shown, Text.encode, String.toList_append, List.flatMap_append]
  rfl

/-- Where a list is given back its document is written, and where an error is given back it is
handed on and nothing is written. -/
theorem writeListed_output {α : Type} (output : List UInt8) (write : α → Json)
    (wrap : LookupError → CommandError) (listed : Except LookupError α)
    (reads : α → List UInt8 → Prop)
    (hreads : ∀ value, listed = .ok value → reads value (Text.encode (write value).pretty)) :
    let ended := writeListed output write wrap listed
    ((ended.1 = .ok () ∧ ∃ document, ended.2 = output ++ (document ++ Text.encode "\n") ∧
        ∃ value, listed = .ok value ∧ reads value document) ∨
      ∃ error, ended.1 = .error error ∧ ended.2 = output) ∧
      ∀ error, ended.1 = .error error ↔ ∃ cause, listed = .error cause ∧ error = wrap cause := by
  intro ended
  cases listed with
  | ok value =>
    have hwritten : ended.2 = output ++ (Text.encode (write value).pretty ++ Text.encode "\n") :=
      congrArg (output ++ ·) (shown_eq _)
    refine ⟨.inl ⟨rfl, _, hwritten, value, rfl, hreads value rfl⟩, fun error => ⟨nofun, ?_⟩⟩
    rintro ⟨cause, hcause, -⟩
    cases hcause
  | error cause =>
    refine ⟨.inr ⟨wrap cause, rfl, rfl⟩, fun error => ⟨?_, ?_⟩⟩
    · rintro ⟨⟩
      exact ⟨cause, rfl, rfl⟩
    · rintro ⟨_, ⟨⟩, rfl⟩
      rfl

variable (terms : Terms) (store : Store) (journal : Journal) (output : List UInt8)

/-- Interactions are written as they come from the store. -/
theorem carryOut_interactions (name : String) (orphans : Bool) :
    ((carryOut terms output (.interactions name orphans)).run store journal).1 =
      (.ok (), output ++
        ((store journal.sent (Request.interactions (Target.ofText name) orphans)).toOption.getD
          (Text.encode "null") ++ Text.encode "\n")) := by
  have hfound := (Lookup.run_interactions store journal (Target.ofText name) orphans).2.1
  rw [← hfound, carryOut, Lookup.run_bind, ← List.append_assoc]
  rfl

/-- A pod with its containers is written as the document of its view. -/
theorem carryOut_hierarchy (name : String) :
    ((carryOut terms output (.hierarchy name)).run store journal).1 =
      (.ok (), output ++
        shown ((Lookup.hierarchy (Target.ofText name)).run store journal).1.toJson) := by
  rw [carryOut, Lookup.run_bind]
  generalize (Lookup.hierarchy (Target.ofText name)).run store journal = found
  rfl

/-- So is a pod with its containers and their costs. -/
theorem carryOut_metrics (name : String) :
    ((carryOut terms output (.metrics name)).run store journal).1 =
      (.ok (), output ++
        shown ((Lookup.costHierarchy terms (Target.ofText name)).run store journal).1.toJson) := by
  rw [carryOut, Lookup.run_bind]
  generalize (Lookup.costHierarchy terms (Target.ofText name)).run store journal = found
  rfl

/-- Pods with a label are written as the list of their numbers. -/
theorem carryOut_labels (pairs : List (String × String)) :
    ((carryOut terms output (.labels pairs)).run store journal).1 =
      writeListed output (fun uids => .array (uids.map .string)) .labelLookup
        ((Lookup.uidsByLabels (LabelMap.ofPairs pairs)).run store journal).1 := by
  rw [carryOut, Lookup.run_bind]
  generalize (Lookup.uidsByLabels (LabelMap.ofPairs pairs)).run store journal = listed
  rfl

/-- Pods that have not ended are written as the list of their records. -/
theorem carryOut_livePods :
    ((carryOut terms output .livePods).run store journal).1 =
      writeListed output (fun pods => .array (pods.map Pod.toJson)) .livePodLookup
        (Lookup.livePods.run store journal).1 := by
  rw [carryOut, Lookup.run_bind]
  generalize Lookup.livePods.run store journal = listed
  rfl

/-- Whether a document is what a command has to write for what its lookup gives back. -/
def Writes (document : List UInt8) : Command → Prop
  | .interactions name orphans =>
    let reply := store journal.sent (Request.interactions (Target.ofText name) orphans)
    document = reply.toOption.getD (Text.encode "null")
  | .hierarchy name =>
    ShowsView ((Lookup.hierarchy (Target.ofText name)).run store journal).1 document
  | .metrics name =>
    ShowsView ((Lookup.costHierarchy terms (Target.ofText name)).run store journal).1 document
  | .labels pairs =>
    ∃ uids, ((Lookup.uidsByLabels (LabelMap.ofPairs pairs)).run store journal).1 = .ok uids ∧
      Node.decode? (Node.list? fun _ => Node.text?) document = some uids
  | .livePods =>
    ∃ pods, (Lookup.livePods.run store journal).1 = .ok pods ∧ ShowsPods pods document

/-- Whether the lookup of a command gives back an error, which the command hands on. -/
def Fails (error : CommandError) : Command → Prop
  | .labels pairs =>
    ∃ cause, ((Lookup.uidsByLabels (LabelMap.ofPairs pairs)).run store journal).1 = .error cause ∧
      error = .labelLookup cause
  | .livePods =>
    ∃ cause, (Lookup.livePods.run store journal).1 = .error cause ∧ error = .livePodLookup cause
  | _ => False

/-- A command that ends well has written one document with a new line behind it, and a command that
fails has written nothing, whatever stood in its output before. The document is the reply of the
store, or is read as what the lookup gave back. Only lookups by label and for the pods that have not
ended fail, and exactly where they give back an error. -/
theorem run_output (command : Command) :
    let ended := ((command.carryOut terms output).run store journal).1
    ((ended.1 = .ok () ∧ ∃ document, ended.2 = output ++ (document ++ Text.encode "\n") ∧
        command.Writes terms store journal document) ∨
      ∃ error, ended.1 = .error error ∧ ended.2 = output) ∧
      ∀ error, ended.1 = .error error ↔ command.Fails store journal error := by
  intro ended
  cases command with
  | interactions name orphans =>
    have hended : ended = _ := carryOut_interactions terms store journal output name orphans
    rw [hended]
    exact ⟨.inl ⟨rfl, _, rfl, rfl⟩, fun _ => ⟨nofun, nofun⟩⟩
  | hierarchy name =>
    obtain ⟨node, hnode⟩ := Lookup.exists_ofNode?_hierarchy store journal (Target.ofText name)
    have hended : ended = _ := carryOut_hierarchy terms store journal output name
    rw [hended, shown_eq]
    exact ⟨.inl ⟨rfl, _, rfl, showsView_of_ofNode? hnode⟩, fun _ => ⟨nofun, nofun⟩⟩
  | metrics name =>
    obtain ⟨node, hnode⟩ :=
      Lookup.exists_ofNode?_costHierarchy store journal terms (Target.ofText name)
    have hended : ended = _ := carryOut_metrics terms store journal output name
    rw [hended, shown_eq]
    exact ⟨.inl ⟨rfl, _, rfl, showsView_of_ofNode? hnode⟩, fun _ => ⟨nofun, nofun⟩⟩
  | labels pairs =>
    have hended : ended = _ := carryOut_labels terms store journal output pairs
    rw [hended]
    exact writeListed_output output _ _ _ _ fun uids _ => Node.decode?_texts uids
  | livePods =>
    have hreads : ∀ pods, (Lookup.livePods.run store journal).1 = .ok pods →
        ShowsPods pods (Text.encode (Json.array (pods.map Pod.toJson)).pretty) := by
      intro pods hlisted
      obtain ⟨node, hnode⟩ := Lookup.exists_list?_livePods hlisted
      exact showsPods_of_list? hnode
    have hended : ended = _ := carryOut_livePods terms store journal output
    rw [hended]
    exact writeListed_output output _ _ _ ShowsPods hreads

/-- Pods that are written on several lines, the last of them with a time and without a name, and a
view of a node that costs minus zero. -/
theorem run_output_lines :
    let terms : Terms := ⟨Settings.standard.pricing, .midnight 0⟩
    let output := Text.encode "earlier\n"
    let listStore := Store.prepared (.ok (Text.encode <| "\x7b\"pods\":[[\"u1\",\"a\\nb\"]," ++
      "\x7b\"startTime\":\"2026-10-19T09:00:00+02:00\",\"pod\":[[\"db\",1e3]]\x7d]\x7d")) []
    let viewStore := Store.prepared (.ok (Text.encode
      "\x7b\"parent\":[[\"web\",\"\",[[\"init\"]],-0.0,1.5]]\x7d")) []
    (∃ document pods,
      ((carryOut terms output .livePods).run listStore Journal.empty).1 =
        (.ok (), output ++ (document ++ Text.encode "\n")) ∧
      (Lookup.livePods.run listStore Journal.empty).1 = .ok pods ∧
      Node.decode? (Node.list? Pod.ofNode?) document = some pods) ∧
    ∃ document,
      ((carryOut terms output (.hierarchy "web")).run viewStore Journal.empty).1 =
        (.ok (), output ++ (document ++ Text.encode "\n")) ∧
      Node.decode? HierarchyView.ofNode? document = some ⟨((Lookup.hierarchy
        (Target.ofText "web")).run viewStore Journal.empty).1.data.unsigned⟩ := by
  intro terms output listStore viewStore
  constructor
  · have haccepted : (Lookup.livePods.run listStore Journal.empty).1.toOption.any
        (fun pods => decide (Pod.codec.list.ReadsBack pods)) = true := by decide +kernel
    obtain ⟨pods, hpods, hback⟩ := (Option.any_eq_true _ _).mp haccepted
    obtain ⟨⟨hended, document, hwritten, listed, hlisted, -, hreads⟩ | ⟨error, herror, -⟩,
      hfails⟩ := run_output terms listStore Journal.empty output .livePods
    · rw [hlisted] at hpods
      cases hpods
      exact ⟨document, pods, Prod.ext hended hwritten, hlisted,
        hreads (of_decide_eq_true hback)⟩
    · obtain ⟨cause, hcause, -⟩ := (hfails error).mp herror
      rw [hcause] at hpods
      cases hpods
  · have hback : HierarchyView.codec.ReadsBack
        ((Lookup.hierarchy (Target.ofText "web")).run viewStore Journal.empty).1 := by
      decide +kernel
    obtain ⟨⟨hended, document, hwritten, -, hreads⟩ | ⟨error, herror, -⟩, hfails⟩ :=
      run_output terms viewStore Journal.empty output (.hierarchy "web")
    · exact ⟨document, Prod.ext hended hwritten, (hreads hback).1⟩
    · exact ((hfails error).mp herror).elim

end Command

end PodCosts
