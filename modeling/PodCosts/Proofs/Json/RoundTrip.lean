import PodCosts.Proofs.Json.Nodes
import PodCosts.Proofs.Json.Tokens
import PodCosts.Proofs.Text.Utf8

/-!
# Reading back documents

The compact text of a document whose numbers are finite is read as the document that it was written
for. Numbers come back as the numerals they were written as; what such a numeral is worth is a
question of its own.
-/

namespace PodCosts

open Text (joined)
open Token (readFrom? Separate)

/-- The numeral that a number is written as. A number that is not finite is not written as one; zero
stands in for it. -/
def Number.numeral (number : Number) : Numeral :=
  (Numeral.ofChars? number.text.toList).getD ⟨false, ['0'], [], none⟩

/-- The numeral of a number is the one with its text. -/
theorem Number.numeral_eq {number : Number} {numeral : Numeral} (hcanonical : numeral.Canonical)
    (hchars : numeral.chars = number.text.toList) : number.numeral = numeral := by
  rw [Number.numeral, ← hchars, Numeral.ofChars?_chars hcanonical, Option.getD_some]

/-- A finite number is written as its numeral. -/
theorem Number.numeral_spec {number : Number} (h : number.Finite) :
    number.numeral.Canonical ∧ number.numeral.chars = number.text.toList := by
  obtain ⟨numeral, hcanonical, hchars⟩ := Number.exists_numeral h
  rw [Number.numeral_eq hcanonical hchars]
  exact ⟨hcanonical, hchars⟩

/-- A whole number is written with its digits. -/
theorem Number.numeral_int (value : Int) :
    (Number.int value).numeral =
      ⟨decide (value < 0), Number.digitChars value.natAbs, [], none⟩ := by
  refine Number.numeral_eq ⟨fun c => Number.isDigit_of_mem_digitChars,
    Number.digitChars_ne_nil _, Number.length_digitChars_of_head?, by simp, by simp, by simp⟩ ?_
  rw [Number.text_int, Number.signed, String.toList_ofList]
  simp [Numeral.chars, Numeral.sizeChars, Numeral.fractionChars, Numeral.powerChars]

/-- A whole number of up to 64 bits comes back as it was written. -/
theorem Number.value?_numeral_int {value : Int}
    (hleast : -0x8000000000000000 ≤ value) (hmost : value ≤ 0xffffffffffffffff) :
    (Number.int value).numeral.value? = some (.int value) := by
  have hdigits : (Number.digitChars value.natAbs).foldl Numeral.shifted 0 = value.natAbs :=
    Nat.ofDigitChars_ten_toDigits
  have hint : (Number.int value).numeral.int? = some value := by
    rw [numeral_int, Numeral.int?, hdigits, if_neg (by simp)]
    dsimp only
    by_cases hnegative : value < 0
    · rw [if_pos (decide_eq_true hnegative), if_pos (by omega)]
      exact congrArg some (by omega)
    · rw [if_neg (by simpa using hnegative), if_pos (by rw [Numeral.greatest]; omega)]
      exact congrArg some (by omega)
  rw [Numeral.value?, hint]

namespace Json

mutual

/-- Whether every number of a document is finite. -/
def Finite : Json → Prop
  | .number value => value.Finite
  | .array items => ItemsFinite items
  | .object fields => FieldsFinite fields
  | _ => True

/-- Whether every number in the items of an array is finite. -/
def ItemsFinite : List Json → Prop
  | [] => True
  | item :: items => item.Finite ∧ ItemsFinite items

/-- Whether every number in the fields of an object is finite. -/
def FieldsFinite : List (String × Json) → Prop
  | [] => True
  | (_, value) :: fields => value.Finite ∧ FieldsFinite fields

end

mutual

/-- What the text of a document is read as. -/
def toNode : Json → Node
  | .null => .null
  | .bool value => .bool value
  | .number value => .number value.numeral
  | .string value => .string (some value)
  | .array items => .array (toNodes items)
  | .object fields => .object (toMembers fields)

/-- What the items of an array are read as. -/
def toNodes : List Json → List Node
  | [] => []
  | item :: items => item.toNode :: toNodes items

/-- What the fields of an object are read as. -/
def toMembers : List (String × Json) → List (Option String × Node)
  | [] => []
  | (name, value) :: fields => (some name, value.toNode) :: toMembers fields

end

/-- The items of an array can be written if each of them can. -/
theorem itemsFinite_iff {items : List Json} :
    ItemsFinite items ↔ ∀ item ∈ items, item.Finite := by
  induction items with
  | nil => simp [ItemsFinite]
  | cons item items ih => simp [ItemsFinite, ih]

/-- The fields of an object can be written if each of them can. -/
theorem fieldsFinite_iff {fields : List (String × Json)} :
    FieldsFinite fields ↔ ∀ field ∈ fields, field.2.Finite := by
  induction fields with
  | nil => simp [FieldsFinite]
  | cons field fields ih => simp [FieldsFinite, ih]

/-- The nodes of items are those of each of them. -/
theorem toNodes_eq_map (items : List Json) : toNodes items = items.map toNode := by
  induction items with
  | nil => rfl
  | cons item items ih => rw [toNodes, ih, List.map_cons]

/-- The members of fields are those of each of them. -/
theorem toMembers_eq_map (fields : List (String × Json)) :
    toMembers fields = fields.map fun field => (some field.1, field.2.toNode) := by
  induction fields with
  | nil => rfl
  | cons field fields ih => rw [toMembers, ih, List.map_cons]

/-! ## Texts of rows -/

/-- The characters behind the first of joined texts. -/
def furtherChars (texts : List String) : List Char :=
  texts.flatMap fun text => ',' :: text.toList

/-- Joined texts are the first of them with the others behind it. -/
theorem toList_joined (text : String) (texts : List String) :
    (joined "," (text :: texts)).toList = text.toList ++ furtherChars texts := by
  induction texts generalizing text with
  | nil => simp [joined, furtherChars]
  | cons next texts ih =>
      rw [joined, String.toList_append, String.toList_append, ih next]
      simp [furtherChars]

/-- Brackets, braces and commas are neither part of a word nor of a numeral. -/
theorem separate_cons {c : Char} (halpha : c.isAlpha = false)
    (hnumeral : Token.inNumeral c = false) (rest : List (Option Char)) :
    Separate (some c :: rest) := by
  rintro unit tail heq
  obtain ⟨rfl, -⟩ := List.cons.inj heq
  exact ⟨c, rfl, halpha, hnumeral⟩

/-- Where nothing follows, no word and no numeral goes on. -/
theorem separate_nil : Separate [] := by
  rintro unit tail heq
  exact absurd heq (by simp)

/-- What begins with a further text is neither part of a word nor of a numeral. -/
theorem separate_furtherChars (texts : List String) {rest : List (Option Char)}
    (hrest : Separate rest) : Separate ((furtherChars texts).map some ++ rest) := by
  cases texts with
  | nil => exact hrest
  | cons text texts => exact separate_cons rfl rfl _

mutual

/-- The text of a document is cut into its tokens, whatever follows. -/
theorem readFrom?_compact (document : Json) (hfinite : document.Finite)
    {rest : List (Option Char)} (hrest : Separate rest) :
    readFrom? .nothing (document.compact.toList.map some ++ rest) =
      (readFrom? .nothing rest).map (document.toNode.tokens ++ ·) := by
  match document with
  | .null => exact Token.readFrom?_word rfl rfl rfl hrest
  | .bool true => exact Token.readFrom?_word rfl rfl rfl hrest
  | .bool false => exact Token.readFrom?_word rfl rfl rfl hrest
  | .number value =>
      obtain ⟨hcanonical, hchars⟩ := Number.numeral_spec (show value.Finite from hfinite)
      rw [compact, ← hchars]
      exact Token.readFrom?_numeral hcanonical hrest
  | .string value => exact Token.readFrom?_quote value rest
  | .array [] =>
      change readFrom? .nothing (some '[' :: some ']' :: rest) = _
      rw [Token.readFrom?_mark .openArray rfl, Token.readFrom?_mark .closeArray rfl, Option.map_map]
      rfl
  | .array (item :: items) =>
      have htext : (compact (.array (item :: items))).toList.map some ++ rest =
          some '[' :: (item.compact.toList.map some ++
            ((furtherChars (compactItems items)).map some ++ (some ']' :: rest))) := by
        simp [compact, compactItems, toList_joined]
      have hclosed : Separate (some ']' :: rest) := separate_cons rfl rfl rest
      rw [htext, Token.readFrom?_mark .openArray rfl,
        readFrom?_compact item hfinite.1 (separate_furtherChars _ hclosed),
        readFrom?_furtherItems items hfinite.2 hclosed,
        Token.readFrom?_mark .closeArray rfl]
      simp only [Option.map_map, Function.comp_def, toNode, toNodes, Node.tokens,
        List.cons_append, List.append_assoc, List.nil_append]
  | .object [] =>
      change readFrom? .nothing (some '\x7b' :: some '\x7d' :: rest) = _
      rw [Token.readFrom?_mark .openObject rfl, Token.readFrom?_mark .closeObject rfl,
        Option.map_map]
      rfl
  | .object ((name, value) :: fields) =>
      have htext : (compact (.object ((name, value) :: fields))).toList.map some ++ rest =
          some '\x7b' :: ((Text.quote name).toList.map some ++ (some ':' ::
            (value.compact.toList.map some ++
              ((furtherChars (compactFields fields)).map some ++ (some '\x7d' :: rest))))) := by
        simp [compact, compactFields, toList_joined]
      have hclosed : Separate (some '\x7d' :: rest) := separate_cons rfl rfl rest
      rw [htext, Token.readFrom?_mark .openObject rfl, Token.readFrom?_quote,
        Token.readFrom?_mark .colon rfl,
        readFrom?_compact value hfinite.1 (separate_furtherChars _ hclosed),
        readFrom?_furtherFields fields hfinite.2 hclosed,
        Token.readFrom?_mark .closeObject rfl]
      simp only [Option.map_map, Function.comp_def, toNode, toMembers, Node.tokens,
        List.cons_append, List.append_assoc, List.nil_append]

/-- The texts behind the first item of an array. -/
theorem readFrom?_furtherItems (items : List Json) (hfinite : ItemsFinite items)
    {rest : List (Option Char)} (hrest : Separate rest) :
    readFrom? .nothing ((furtherChars (compactItems items)).map some ++ rest) =
      (readFrom? .nothing rest).map (Node.furtherItems (toNodes items) ++ ·) := by
  match items with
  | [] => exact (Option.map_id_apply).symm
  | item :: items =>
      have htext : (furtherChars (compactItems (item :: items))).map some ++ rest =
          some ',' :: (item.compact.toList.map some ++
            ((furtherChars (compactItems items)).map some ++ rest)) := by
        simp [compactItems, furtherChars]
      rw [htext, Token.readFrom?_mark .comma rfl,
        readFrom?_compact item hfinite.1 (separate_furtherChars _ hrest),
        readFrom?_furtherItems items hfinite.2 hrest]
      simp only [Option.map_map, Function.comp_def, toNodes, Node.furtherItems,
        List.cons_append, List.append_assoc]

/-- The texts behind the first field of an object. -/
theorem readFrom?_furtherFields (fields : List (String × Json)) (hfinite : FieldsFinite fields)
    {rest : List (Option Char)} (hrest : Separate rest) :
    readFrom? .nothing ((furtherChars (compactFields fields)).map some ++ rest) =
      (readFrom? .nothing rest).map (Node.furtherMembers (toMembers fields) ++ ·) := by
  match fields with
  | [] => exact (Option.map_id_apply).symm
  | (name, value) :: fields =>
      have htext : (furtherChars (compactFields ((name, value) :: fields))).map some ++ rest =
          some ',' :: ((Text.quote name).toList.map some ++ (some ':' ::
            (value.compact.toList.map some ++
              ((furtherChars (compactFields fields)).map some ++ rest)))) := by
        simp [compactFields, furtherChars]
      rw [htext, Token.readFrom?_mark .comma rfl, Token.readFrom?_quote,
        Token.readFrom?_mark .colon rfl,
        readFrom?_compact value hfinite.1 (separate_furtherChars _ hrest),
        readFrom?_furtherFields fields hfinite.2 hrest]
      simp only [Option.map_map, Function.comp_def, toMembers, Node.furtherMembers,
        List.cons_append, List.append_assoc]

end

/-- The compact text of a document is read as the document. -/
theorem read?_compact {document : Json} (hfinite : document.Finite) :
    Node.read? (Text.encode document.compact) = some document.toNode := by
  have htokens := readFrom?_compact document hfinite separate_nil
  rw [List.append_nil] at htokens
  rw [Node.read?, Node.ofUnits?, Text.decode_encode, Token.read?, htokens]
  change Node.ofTokens? (document.toNode.tokens ++ []) = some document.toNode
  rw [List.append_nil, Node.ofTokens?_tokens]

end Json

end PodCosts
