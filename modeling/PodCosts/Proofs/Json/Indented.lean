import PodCosts.Proofs.Json.RoundTrip

/-!
# Reading back indented documents

Every item and every field of an indented document stands on a line of its own. New lines and the
spaces behind them complete no token, so the indented text is cut into the same tokens as the
compact one, and it is read as the same document.
-/

namespace PodCosts

open Text (joined)
open Token (readFrom? Separate)

namespace Token

/-- Blanks between tokens are passed over. -/
theorem leads_blanks {blanks : List Char} (hblanks : ∀ c ∈ blanks, isSpace c = true) :
    Leads .nothing blanks .nothing := by
  induction blanks with
  | nil => exact .done _
  | cons c blanks ih =>
    have hstep : step? .nothing (some c) = some ([], .nothing) :=
      if_pos (hblanks c List.mem_cons_self)
    exact .step hstep (ih fun d hd => hblanks d (List.mem_cons_of_mem _ hd))

/-- So is a new line with its indentation. -/
theorem readFrom?_newLine (depth : Nat) (rest : List (Option Char)) :
    readFrom? .nothing ((Json.newLine depth).toList.map some ++ rest) =
      readFrom? .nothing rest := by
  refine (leads_blanks ?_).readFrom? rest
  intro c hc
  rw [Json.newLine, String.toList_ofList] at hc
  rcases List.mem_cons.mp hc with rfl | hspace
  · rfl
  · rw [List.eq_of_mem_replicate hspace]
    rfl

/-- A blank between tokens is passed over. -/
theorem readFrom?_space (rest : List (Option Char)) :
    readFrom? .nothing (some ' ' :: rest) = readFrom? .nothing rest :=
  (leads_blanks (List.forall_mem_singleton.mpr rfl)).readFrom? rest

end Token

namespace Json

/-- The characters behind the first of lines that are joined at a depth. -/
def furtherLines (depth : Nat) (texts : List String) : List Char :=
  texts.flatMap fun text => ',' :: ((newLine depth).toList ++ text.toList)

/-- Joined lines are the first of them with the others behind it. -/
theorem toList_joined_lines (depth : Nat) (text : String) (texts : List String) :
    (joined ("," ++ newLine depth) (text :: texts)).toList =
      text.toList ++ furtherLines depth texts := by
  induction texts generalizing text with
  | nil => simp [joined, furtherLines]
  | cons next texts ih =>
    rw [joined, String.toList_append, String.toList_append, ih next]
    simp [furtherLines]

/-- A new line is neither part of a word nor of a numeral. -/
theorem separate_newLine (depth : Nat) (rest : List (Option Char)) :
    Separate ((newLine depth).toList.map some ++ rest) := by
  rw [newLine, String.toList_ofList]
  exact separate_cons rfl rfl _

/-- What begins with a further line is neither part of a word nor of a numeral. -/
theorem separate_furtherLines (depth : Nat) (texts : List String) {rest : List (Option Char)}
    (hrest : Separate rest) : Separate ((furtherLines depth texts).map some ++ rest) := by
  cases texts with
  | nil => exact hrest
  | cons text texts => exact separate_cons rfl rfl _

mutual

/-- The indented text of a document is cut into its tokens, whatever follows. -/
theorem readFrom?_prettyAt (depth : Nat) (document : Json) (hfinite : document.Finite)
    {rest : List (Option Char)} (hrest : Separate rest) :
    readFrom? .nothing ((document.prettyAt depth).toList.map some ++ rest) =
      (readFrom? .nothing rest).map (document.toNode.tokens ++ ·) := by
  match document with
  -- What has no lines of its own is written as in the compact text.
  | .null => exact readFrom?_compact .null hfinite hrest
  | .bool true => exact readFrom?_compact (.bool true) hfinite hrest
  | .bool false => exact readFrom?_compact (.bool false) hfinite hrest
  | .number value => exact readFrom?_compact (.number value) hfinite hrest
  | .string value => exact readFrom?_compact (.string value) hfinite hrest
  | .array [] => exact readFrom?_compact (.array []) hfinite hrest
  | .array (item :: items) =>
    have htext : (prettyAt depth (.array (item :: items))).toList.map some ++ rest =
        some '[' :: ((newLine (depth + 1)).toList.map some ++
          ((item.prettyAt (depth + 1)).toList.map some ++
            ((furtherLines (depth + 1) (prettyItems (depth + 1) items)).map some ++
              ((newLine depth).toList.map some ++ (some ']' :: rest))))) := by
      simp [prettyAt, prettyItems, toList_joined_lines]
    have hclosed := separate_newLine depth (some ']' :: rest)
    rw [htext, Token.readFrom?_mark .openArray rfl, Token.readFrom?_newLine,
      readFrom?_prettyAt (depth + 1) item hfinite.1 (separate_furtherLines _ _ hclosed),
      readFrom?_furtherLines_items (depth + 1) items hfinite.2 hclosed, Token.readFrom?_newLine,
      Token.readFrom?_mark .closeArray rfl]
    simp only [Option.map_map, Function.comp_def, toNode, toNodes, Node.tokens,
      List.cons_append, List.append_assoc, List.nil_append]
  | .object [] => exact readFrom?_compact (.object []) hfinite hrest
  | .object ((name, value) :: fields) =>
    have htext : (prettyAt depth (.object ((name, value) :: fields))).toList.map some ++ rest =
        some '\x7b' :: ((newLine (depth + 1)).toList.map some ++
          ((Text.quote name).toList.map some ++ (some ':' :: some ' ' ::
            ((value.prettyAt (depth + 1)).toList.map some ++
              ((furtherLines (depth + 1) (prettyFields (depth + 1) fields)).map some ++
                ((newLine depth).toList.map some ++ (some '\x7d' :: rest))))))) := by
      simp [prettyAt, prettyFields, toList_joined_lines]
    have hclosed := separate_newLine depth (some '\x7d' :: rest)
    rw [htext, Token.readFrom?_mark .openObject rfl, Token.readFrom?_newLine, Token.readFrom?_quote,
      Token.readFrom?_mark .colon rfl, Token.readFrom?_space,
      readFrom?_prettyAt (depth + 1) value hfinite.1 (separate_furtherLines _ _ hclosed),
      readFrom?_furtherLines_fields (depth + 1) fields hfinite.2 hclosed, Token.readFrom?_newLine,
      Token.readFrom?_mark .closeObject rfl]
    simp only [Option.map_map, Function.comp_def, toNode, toMembers, Node.tokens,
      List.cons_append, List.append_assoc, List.nil_append]

/-- The lines behind the first item of an array. -/
theorem readFrom?_furtherLines_items (depth : Nat) (items : List Json)
    (hfinite : ItemsFinite items) {rest : List (Option Char)} (hrest : Separate rest) :
    readFrom? .nothing ((furtherLines depth (prettyItems depth items)).map some ++ rest) =
      (readFrom? .nothing rest).map (Node.furtherItems (toNodes items) ++ ·) := by
  match items with
  | [] => exact (Option.map_id_apply).symm
  | item :: items =>
    have htext : (furtherLines depth (prettyItems depth (item :: items))).map some ++ rest =
        some ',' :: ((newLine depth).toList.map some ++ ((item.prettyAt depth).toList.map some ++
          ((furtherLines depth (prettyItems depth items)).map some ++ rest))) := by
      simp [prettyItems, furtherLines]
    rw [htext, Token.readFrom?_mark .comma rfl, Token.readFrom?_newLine,
      readFrom?_prettyAt depth item hfinite.1 (separate_furtherLines _ _ hrest),
      readFrom?_furtherLines_items depth items hfinite.2 hrest]
    simp only [Option.map_map, Function.comp_def, toNodes, Node.furtherItems,
      List.cons_append, List.append_assoc]

/-- The lines behind the first field of an object. -/
theorem readFrom?_furtherLines_fields (depth : Nat) (fields : List (String × Json))
    (hfinite : FieldsFinite fields) {rest : List (Option Char)} (hrest : Separate rest) :
    readFrom? .nothing ((furtherLines depth (prettyFields depth fields)).map some ++ rest) =
      (readFrom? .nothing rest).map (Node.furtherMembers (toMembers fields) ++ ·) := by
  match fields with
  | [] => exact (Option.map_id_apply).symm
  | (name, value) :: fields =>
    have htext : (furtherLines depth (prettyFields depth ((name, value) :: fields))).map some ++
        rest = some ',' :: ((newLine depth).toList.map some ++
          ((Text.quote name).toList.map some ++ (some ':' :: some ' ' ::
            ((value.prettyAt depth).toList.map some ++
              ((furtherLines depth (prettyFields depth fields)).map some ++ rest))))) := by
      simp [prettyFields, furtherLines]
    rw [htext, Token.readFrom?_mark .comma rfl, Token.readFrom?_newLine, Token.readFrom?_quote,
      Token.readFrom?_mark .colon rfl, Token.readFrom?_space,
      readFrom?_prettyAt depth value hfinite.1 (separate_furtherLines _ _ hrest),
      readFrom?_furtherLines_fields depth fields hfinite.2 hrest]
    simp only [Option.map_map, Function.comp_def, toMembers, Node.furtherMembers,
      List.cons_append, List.append_assoc]

end

/-- The indented text of a document is read as the document. -/
theorem read?_pretty {document : Json} (hfinite : document.Finite) :
    Node.read? (Text.encode document.pretty) = some document.toNode := by
  have htokens := readFrom?_prettyAt 0 document hfinite separate_nil
  rw [List.append_nil] at htokens
  rw [Node.read?, Node.ofUnits?, Text.decode_encode, pretty, Token.read?, htokens]
  change Node.ofTokens? (document.toNode.tokens ++ []) = some document.toNode
  rw [List.append_nil, Node.ofTokens?_tokens]

end Json

end PodCosts
