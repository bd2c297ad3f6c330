import PodCosts.Proofs.Fields
import PodCosts.Proofs.Records.Codec
import Mathlib.Data.List.Induction

/-!
# Free values of written documents

The text of a document is read as the same free value, provided that the names of its objects
ascend, that its numbers come back as themselves, and that it lies within the limit on nesting. A
document that is nested too deeply is not read at all.
-/

namespace PodCosts

/-- Only a numeral has a number as its free value. -/
theorem Node.exists_numeral_of_value? {node : Node} {number : Number}
    (h : node.value? = some (.number number)) :
    ∃ numeral, node = .number numeral ∧ numeral.value? = some number := by
  cases node with
  | number numeral =>
    obtain ⟨found, hfound, heq⟩ := Option.map_eq_some_iff.mp h
    cases heq
    exact ⟨numeral, rfl, hfound⟩
  | null => cases h
  | bool value => cases h
  | string text =>
    obtain ⟨_, _, heq⟩ := Option.map_eq_some_iff.mp h
    cases heq
  | array items =>
    obtain ⟨_, _, heq⟩ := Option.bind_eq_some_iff.mp h
    cases heq
  | object members =>
    obtain ⟨_, _, heq⟩ := Option.bind_eq_some_iff.mp h
    cases heq

namespace Number

/-- Whether the text of a number is read as that number. -/
def Survives (number : Number) : Prop :=
  Json.read? (Text.encode (Json.number number).compact) = some (.number number)

/-- The text of a number that is not finite is no document. -/
theorem Survives.finite {number : Number} (h : number.Survives) : number.Finite := by
  cases number with
  | int value => exact trivial
  | float x =>
    obtain ⟨node, hnode, hvalue⟩ := Option.bind_eq_some_iff.mp h
    obtain ⟨numeral, rfl, hnumeral⟩ := Node.exists_numeral_of_value? hvalue
    have hread : ReadsBack x := by
      rw [ReadsBack, Node.decode?, Json.float, hnode]
      change numeral.value?.map toFloat = some x
      rw [hnumeral]
      rfl
    exact hread.finite

/-- A finite number survives exactly if its numeral stands for it. -/
theorem survives_iff {number : Number} (hfinite : number.Finite) :
    number.Survives ↔ number.numeral.value? = some number := by
  have hdocument : (Json.number number).Finite := hfinite
  rw [Survives, Json.read?, Json.read?_compact hdocument]
  constructor
  · intro hread
    obtain ⟨numeral, hnode, hvalue⟩ := Node.exists_numeral_of_value? hread
    cases hnode
    exact hvalue
  · intro hvalue
    change number.numeral.value?.map Json.number = _
    rw [hvalue]
    rfl

/-- Whole numbers of up to 64 bits survive. -/
theorem survives_int {value : Int} (hleast : -0x8000000000000000 ≤ value)
    (hmost : value ≤ 0xffffffffffffffff) : (Number.int value).Survives := by
  have hfinite : (Number.int value).Finite := trivial
  exact (survives_iff hfinite).mpr (value?_numeral_int hleast hmost)

end Number

namespace Json

/-- The values that lie within a document, itself among them. -/
inductive Within (part : Json) : Json → Prop
  | here : Within part part
  | item {items : List Json} {item : Json} :
    item ∈ items → Within part item → Within part (.array items)
  | field {fields : List (String × Json)} {field : String × Json} :
    field ∈ fields → Within part field.2 → Within part (.object fields)

/-- Whether the names of every object of a document ascend. -/
def Ordered (document : Json) : Prop :=
  ∀ fields, Within (.object fields) document → Fields.Sorted fields

/-- Whether every number of a document comes back as itself. -/
def NumbersSurvive (document : Json) : Prop :=
  ∀ number, Within (.number number) document → number.Survives

/-- An array is in order if its items are. -/
theorem ordered_array_iff {items : List Json} :
    (Json.array items).Ordered ↔ ∀ item ∈ items, item.Ordered := by
  constructor
  · intro h item hitem fields hwithin
    exact h fields (.item hitem hwithin)
  · rintro h fields (_ | ⟨hitem, hwithin⟩)
    exact h _ hitem fields hwithin

/-- An object is in order if its names ascend and its values are in order. -/
theorem ordered_object_iff {fields : List (String × Json)} :
    (Json.object fields).Ordered ↔ Fields.Sorted fields ∧ ∀ field ∈ fields, field.2.Ordered := by
  constructor
  · intro h
    exact ⟨h fields .here, fun field hfield inner hwithin => h inner (.field hfield hwithin)⟩
  · rintro ⟨hsorted, h⟩ inner (_ | _ | ⟨hfield, hwithin⟩)
    · exact hsorted
    · exact h _ hfield inner hwithin

/-- A string is in order. -/
theorem ordered_string (text : String) : (Json.string text).Ordered := fun _ h => by cases h

/-- A truth value is in order. -/
theorem ordered_bool (value : Bool) : (Json.bool value).Ordered := fun _ h => by cases h

/-- A number is in order. -/
theorem ordered_number (number : Number) : (Json.number number).Ordered := fun _ h => by cases h

/-- The numbers of an array come back if those of its items do. -/
theorem numbersSurvive_array_iff {items : List Json} :
    (Json.array items).NumbersSurvive ↔ ∀ item ∈ items, item.NumbersSurvive := by
  constructor
  · intro h item hitem number hwithin
    exact h number (.item hitem hwithin)
  · rintro h number (_ | ⟨hitem, hwithin⟩)
    exact h _ hitem number hwithin

/-- The numbers of an object come back if those of its values do. -/
theorem numbersSurvive_object_iff {fields : List (String × Json)} :
    (Json.object fields).NumbersSurvive ↔ ∀ field ∈ fields, field.2.NumbersSurvive := by
  constructor
  · intro h field hfield number hwithin
    exact h number (.field hfield hwithin)
  · rintro h number (_ | _ | ⟨hfield, hwithin⟩)
    exact h _ hfield number hwithin

/-- There are no numbers in a string. -/
theorem numbersSurvive_string (text : String) : (Json.string text).NumbersSurvive :=
  fun _ h => by cases h

/-- The number of a number is itself. -/
theorem numbersSurvive_number {number : Number} (h : number.Survives) :
    (Json.number number).NumbersSurvive := by
  rintro _ (_ | _)
  exact h

mutual

/-- How many arrays and objects lie inside one another. -/
def depth : Json → Nat
  | .array items => itemsDepth items + 1
  | .object fields => fieldsDepth fields + 1
  | _ => 0

/-- How many arrays and objects lie inside one another within the items of an array. -/
def itemsDepth : List Json → Nat
  | [] => 0
  | item :: items => max item.depth (itemsDepth items)

/-- How many arrays and objects lie inside one another within the fields of an object. -/
def fieldsDepth : List (String × Json) → Nat
  | [] => 0
  | (_, value) :: fields => max value.depth (fieldsDepth fields)

end

/-- The items of an array are within a limit on nesting if each of them is. -/
theorem itemsDepth_le_iff {items : List Json} {limit : Nat} :
    itemsDepth items ≤ limit ↔ ∀ item ∈ items, item.depth ≤ limit := by
  induction items with
  | nil => simp [itemsDepth]
  | cons item items ih => simp [itemsDepth, ih]

/-- The fields of an object are within a limit on nesting if each of them is. -/
theorem fieldsDepth_le_iff {fields : List (String × Json)} {limit : Nat} :
    fieldsDepth fields ≤ limit ↔ ∀ field ∈ fields, field.2.depth ≤ limit := by
  induction fields with
  | nil => simp [fieldsDepth]
  | cons field fields ih => simp [fieldsDepth, ih]

end Json

namespace Node

/-- Fields whose names ascend stay as they are when they are put together to an object. -/
theorem collect_of_sorted {fields : List (String × Json)} (hsorted : Fields.Sorted fields) :
    collect fields = fields := by
  induction fields using List.reverseRecOn with
  | nil => rfl
  | append_singleton fields field ih =>
    obtain ⟨hfields, -, hlast⟩ := List.pairwise_append.mp hsorted
    have hbehind : ∀ other ∈ fields, other.1 < field.1 := fun other hother =>
      hlast other hother field (List.mem_singleton_self field)
    have hrest := ih hfields
    rw [collect] at hrest ⊢
    rw [List.foldl_append, hrest]
    exact Fields.insert_of_forall_lt field.2 hbehind

/-- Nothing is put together to an object but the given fields. -/
theorem mem_of_mem_collect {fields : List (String × Json)} {field : String × Json}
    (hfield : field ∈ collect fields) : field ∈ fields := by
  induction fields using List.reverseRecOn with
  | nil => cases hfield
  | append_singleton fields last ih =>
    rw [collect, List.foldl_append] at hfield
    rcases Fields.mem_of_mem_insert hfield with rfl | hbefore
    · exact List.mem_append_right fields (List.mem_singleton_self _)
    · exact List.mem_append_left _ (ih hbefore)

/-- A first value and the others lie within a limit exactly if the deepest of them does. -/
theorem cons_if_le {α : Type} (value : α) (others : List α) (first rest depth : Nat) :
    ((if first ≤ depth then some value else none) >>= fun head =>
      (if rest ≤ depth then some others else none) >>= fun tail => pure (head :: tail)) =
        if max first rest ≤ depth then some (value :: others) else none := by
  by_cases hfirst : first ≤ depth
  · by_cases hrest : rest ≤ depth
    · rw [if_pos hfirst, if_pos hrest, if_pos (max_le hfirst hrest)]
      rfl
    · have hmax : ¬max first rest ≤ depth := fun h => hrest (le_of_max_le_right h)
      rw [if_pos hfirst, if_neg hrest, if_neg hmax]
      rfl
  · have hmax : ¬max first rest ≤ depth := fun h => hfirst (le_of_max_le_left h)
    rw [if_neg hfirst, if_neg hmax]
    rfl

/-- The free value of a member whose name is readable. -/
def memberWithin? (depth : Nat) (member : Option String × Node) : Option (String × Json) := do
  let name ← member.1
  let value ← valueWithin? depth member.2
  some (name, value)

/-- Where no array and no object may be, none is read. -/
theorem depth_eq_zero_of_valueWithin? {node : Node} {value : Json}
    (hvalue : valueWithin? 0 node = some value) : value.depth = 0 := by
  cases node with
  | null =>
    cases hvalue
    rfl
  | bool held =>
    cases hvalue
    rfl
  | number numeral =>
    obtain ⟨number, -, rfl⟩ := Option.map_eq_some_iff.mp hvalue
    rfl
  | string text =>
    obtain ⟨held, -, rfl⟩ := Option.map_eq_some_iff.mp hvalue
    rfl
  | array items => cases hvalue
  | object members => cases hvalue

/-- What is read within a limit lies within it. -/
theorem depth_le_of_valueWithin? {depth : Nat} {node : Node} {value : Json}
    (hvalue : valueWithin? depth node = some value) : value.depth ≤ depth := by
  induction depth generalizing node value with
  | zero => exact le_of_eq (depth_eq_zero_of_valueWithin? hvalue)
  | succ depth ih =>
    have hleaf : valueWithin? 0 node = some value → value.depth ≤ depth + 1 := fun hnone =>
      le_of_eq_of_le (depth_eq_zero_of_valueWithin? hnone) (Nat.zero_le _)
    cases node with
    | null => exact hleaf hvalue
    | bool held => exact hleaf hvalue
    | number numeral => exact hleaf hvalue
    | string text => exact hleaf hvalue
    | array items =>
      obtain ⟨values, hvalues, heq⟩ := Option.bind_eq_some_iff.mp hvalue
      cases heq
      refine Nat.succ_le_succ (Json.itemsDepth_le_iff.mpr fun held hheld => ?_)
      obtain ⟨item, -, hitem⟩ := exists_of_mem_forall₂ (forall₂_of_mapM_eq_some hvalues) hheld
      exact ih hitem
    | object members =>
      obtain ⟨values, hvalues, heq⟩ := Option.bind_eq_some_iff.mp hvalue
      cases heq
      refine Nat.succ_le_succ (Json.fieldsDepth_le_iff.mpr fun held hheld => ?_)
      obtain ⟨member, -, hmember⟩ :=
        exists_of_mem_forall₂ (forall₂_of_mapM_eq_some hvalues) (mem_of_mem_collect hheld)
      obtain ⟨name, -, hrest⟩ := Option.bind_eq_some_iff.mp hmember
      obtain ⟨read, hread, hpair⟩ := Option.bind_eq_some_iff.mp hrest
      cases hpair
      exact ih hread

mutual

/-- A written document has itself as its free value exactly if it lies within the limit. -/
theorem valueWithin?_toNode (document : Json) (hordered : document.Ordered)
    (hnumbers : document.NumbersSurvive) (depth : Nat) :
    valueWithin? depth document.toNode =
      if document.depth ≤ depth then some document else none := by
  match document with
  | .null => cases depth <;> rfl
  | .bool value => cases depth <;> rfl
  | .number value =>
    have hsurvives := hnumbers value .here
    have hvalue := (Number.survives_iff hsurvives.finite).mp hsurvives
    have hnode : valueWithin? depth (Json.number value).toNode =
        value.numeral.value?.map .number := by
      cases depth <;> rfl
    rw [hnode, hvalue]
    exact (if_pos (Nat.zero_le depth)).symm
  | .string value => cases depth <;> rfl
  | .array items =>
    cases depth with
    | zero => rfl
    | succ depth =>
      have hitems := mapM_toNodes items (Json.ordered_array_iff.mp hordered)
        (Json.numbersSurvive_array_iff.mp hnumbers) depth
      rw [Json.toNode, valueWithin?, hitems, Json.depth]
      by_cases hdepth : Json.itemsDepth items ≤ depth
      · rw [if_pos hdepth, if_pos (Nat.succ_le_succ hdepth)]
        rfl
      · rw [if_neg hdepth, if_neg (by omega)]
        rfl
  | .object fields =>
    obtain ⟨hsorted, hvalues⟩ := Json.ordered_object_iff.mp hordered
    cases depth with
    | zero => rfl
    | succ depth =>
      have hmembers := mapM_memberWithin? fields hvalues
        (Json.numbersSurvive_object_iff.mp hnumbers) depth
      have hnode : valueWithin? (depth + 1) (Json.object fields).toNode =
          (Json.toMembers fields).mapM (memberWithin? depth) >>= fun values =>
            some (.object (collect values)) := rfl
      rw [hnode, hmembers, Json.depth]
      by_cases hdepth : Json.fieldsDepth fields ≤ depth
      · rw [if_pos hdepth, if_pos (Nat.succ_le_succ hdepth)]
        exact congrArg (fun kept => some (Json.object kept)) (collect_of_sorted hsorted)
      · rw [if_neg hdepth, if_neg (by omega)]
        rfl

/-- The items of a written array. -/
theorem mapM_toNodes (items : List Json) (hordered : ∀ item ∈ items, item.Ordered)
    (hnumbers : ∀ item ∈ items, item.NumbersSurvive) (depth : Nat) :
    (Json.toNodes items).mapM (valueWithin? depth) =
      if Json.itemsDepth items ≤ depth then some items else none := by
  match items with
  | [] => rfl
  | item :: items =>
    have hfirst := valueWithin?_toNode item (hordered item List.mem_cons_self)
      (hnumbers item List.mem_cons_self) depth
    have hrest := mapM_toNodes items
      (fun other hother => hordered other (List.mem_cons_of_mem _ hother))
      (fun other hother => hnumbers other (List.mem_cons_of_mem _ hother)) depth
    rw [Json.toNodes, List.mapM_cons, hfirst, hrest, Json.itemsDepth]
    exact cons_if_le item items item.depth (Json.itemsDepth items) depth

/-- The fields of a written object. -/
theorem mapM_memberWithin? (fields : List (String × Json))
    (hordered : ∀ field ∈ fields, field.2.Ordered)
    (hnumbers : ∀ field ∈ fields, field.2.NumbersSurvive) (depth : Nat) :
    (Json.toMembers fields).mapM (memberWithin? depth) =
      if Json.fieldsDepth fields ≤ depth then some fields else none := by
  match fields with
  | [] => rfl
  | (name, value) :: fields =>
    have hfirst := valueWithin?_toNode value (hordered (name, value) List.mem_cons_self)
      (hnumbers (name, value) List.mem_cons_self) depth
    have hrest := mapM_memberWithin? fields
      (fun other hother => hordered other (List.mem_cons_of_mem _ hother))
      (fun other hother => hnumbers other (List.mem_cons_of_mem _ hother)) depth
    have hmember : memberWithin? depth (some name, value.toNode) =
        if value.depth ≤ depth then some (name, value) else none := by
      rw [memberWithin?, hfirst]
      split_ifs <;> rfl
    rw [Json.toMembers, List.mapM_cons, hmember, hrest, Json.fieldsDepth]
    exact cons_if_le (name, value) fields value.depth (Json.fieldsDepth fields) depth

end

end Node

end PodCosts
