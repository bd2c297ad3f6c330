import PodCosts.Proofs.Toml.Scalars

/-!
# Tables of settings files

The tables that were written are read back. Each line takes the reader from one document to the
next, whatever stands behind it: a header opens a table, a field is added to it, an empty line
changes nothing.
-/

namespace PodCosts.Toml

variable {document before middle after : Document} {name : String} {rest : List Char}

/-- Whether a name can be written without quotes. -/
def IsBareName (name : String) : Prop :=
  name.toList ≠ [] ∧ ∀ c ∈ name.toList, isBare c = true

instance : DecidablePred IsBareName := fun name =>
  @instDecidableAnd _ _ _ (List.decidableBAll (isBare · = true) name.toList)

/-! ## Names -/

/-- A name begins with one of its characters. -/
theorem IsBareName.exists_cons (hname : IsBareName name) :
    ∃ first others, name.toList = first :: others ∧ isBare first = true := by
  obtain ⟨first, others, hsplit⟩ := List.exists_cons_of_ne_nil hname.1
  exact ⟨first, others, hsplit, hname.2 first (by simp [hsplit])⟩

/-- No blank is left out in front of another character. -/
theorem skipSpaces_cons {c : Char} (hc : isSpace c = false) (cs : List Char) :
    skipSpaces (c :: cs) = c :: cs :=
  List.dropWhile_cons_of_neg (by simp [hc])

/-- A name is not a blank. -/
theorem isSpace_of_isBare {c : Char} (hc : isBare c = true) : isSpace c = false := by
  simp [isSpace, ne_of_true_of_false hc (rfl : isBare ' ' = false),
    ne_of_true_of_false hc (rfl : isBare '\t' = false)]

/-- A name is read back as a key of one name. -/
theorem key?_name (hname : IsBareName name) (hrest : rest.takeWhile isBare = [])
    (hdot : ∀ cs, skipSpaces rest ≠ '.' :: cs) :
    key? nestingLimit (name.toList ++ rest) = some ([name], skipSpaces rest) := by
  have hrun : (name.toList ++ rest).takeWhile isBare = name.toList := by
    rw [List.takeWhile_append_of_pos hname.2, hrest, List.append_nil]
  have hread : name? (name.toList ++ rest) = some (name, rest) := by
    obtain ⟨first, others, hsplit, hfirst⟩ := hname.exists_cons
    have hne : name.toList.isEmpty = false := by simp [hsplit]
    rw [name?]
    · rw [hrun, hne, if_neg Bool.false_ne_true, String.ofList_toList, List.drop_left]
    · exact fun _ h => ne_of_true_of_false hfirst rfl (List.cons.inj (hsplit ▸ h)).1
    · exact fun _ h => ne_of_true_of_false hfirst rfl (List.cons.inj (hsplit ▸ h)).1
  have hskip : skipSpaces (name.toList ++ rest) = name.toList ++ rest := by
    obtain ⟨first, others, hsplit, hfirst⟩ := hname.exists_cons
    rw [hsplit, List.cons_append, skipSpaces_cons (isSpace_of_isBare hfirst)]
  rw [nestingLimit, key?, hskip, hread]
  dsimp only [Option.bind_eq_bind, Option.bind_some]
  split
  · rename_i cs heq
    exact absurd heq (hdot cs)
  · rfl

/-! ## Lines -/

/-- Whether lines take the reader from one document to another, whatever stands behind them. No
line is without a character, so the text is long enough for a step at each of them. -/
def Takes (lines : List Char) (before after : Document) : Prop :=
  ∃ count ≤ lines.length, ∀ fuel rest,
    lines? (fuel + count) before (lines ++ rest) = lines? fuel after rest

/-- No lines change nothing. -/
theorem takes_nil (document : Document) : Takes [] document document :=
  ⟨0, Nat.le_refl 0, fun _ _ => rfl⟩

/-- Lines follow one another. -/
theorem Takes.append {lines others : List Char} (hfirst : Takes lines before middle)
    (hsecond : Takes others middle after) : Takes (lines ++ others) before after := by
  obtain ⟨first, hlines, hfirst⟩ := hfirst
  obtain ⟨second, hothers, hsecond⟩ := hsecond
  refine ⟨second + first, by rw [List.length_append]; omega, fun fuel rest => ?_⟩
  rw [List.append_assoc, ← Nat.add_assoc, hfirst, hsecond]

/-- An empty line changes nothing. -/
theorem takes_blank (document : Document) : Takes ['\n'] document document :=
  ⟨1, Nat.le_refl 1, fun _ _ => rfl⟩

/-- A line that begins with any other character is not empty. -/
theorem lineEnd?_cons {c : Char} (hspace : isSpace c = false) (hcomment : c ≠ '#')
    (hbreak : c ≠ '\n') (hreturn : c ≠ '\r') (cs : List Char) : lineEnd? (c :: cs) = none := by
  rw [lineEnd?, skipSpaces_cons hspace, skipComment]
  · dsimp only
    rw [newline?.eq_def]
    split
    · rename_i heq
      exact absurd (List.cons.inj heq).1 hbreak
    · rename_i heq
      exact absurd (List.cons.inj heq).1 hreturn
    · rfl
  · exact fun _ h => hcomment (List.cons.inj h).1

/-- A line with a statement takes the reader to the document that the statement makes. -/
theorem takes_statement {c : Char} {cs : List Char} (hspace : isSpace c = false)
    (hcomment : c ≠ '#') (hbreak : c ≠ '\n') (hreturn : c ≠ '\r')
    (hstatement : ∀ rest, statement? before (c :: cs ++ '\n' :: rest) =
      some (after, '\n' :: rest)) : Takes (c :: cs ++ ['\n']) before after := by
  refine ⟨1, by simp, fun fuel rest => ?_⟩
  have hread := hstatement rest
  have hline : c :: cs ++ ['\n'] ++ rest = c :: (cs ++ '\n' :: rest) := by simp
  rw [List.cons_append] at hread
  rw [hline, lines?, lineEnd?_cons hspace hcomment hbreak hreturn]
  · dsimp only
    rw [skipSpaces_cons hspace, hread]
    rfl
  · exact List.cons_ne_nil _ _

/-- A header opens a table that is not there yet. -/
theorem takes_header (hname : IsBareName name) {complete : Entries}
    (hsettle : document.settle? = some complete) (hfree : Entries.get? name complete = none) :
    Takes ('[' :: name.toList ++ [']', '\n']) document ⟨complete, [name], false, []⟩ := by
  have hopen : document.openTable? [name] = some ⟨complete, [name], false, []⟩ := by
    simp [Document.openTable?, hsettle, Entries.changeAt?, hfree]
  have hlines : '[' :: name.toList ++ [']', '\n'] = '[' :: (name.toList ++ [']']) ++ ['\n'] := by
    simp
  rw [hlines]
  refine takes_statement (by decide) (by decide) (by decide) (by decide) fun rest => ?_
  have hkey : key? nestingLimit (name.toList ++ ']' :: '\n' :: rest) =
      some ([name], ']' :: '\n' :: rest) := key?_name hname rfl nofun
  obtain ⟨first, others, hsplit, hfirst⟩ := hname.exists_cons
  have hchars : '[' :: (name.toList ++ [']']) ++ '\n' :: rest =
      '[' :: (name.toList ++ ']' :: '\n' :: rest) := by simp
  rw [hchars, statement?]
  · rw [hkey]
    simp [hopen]
  · rw [hsplit]
    exact fun _ h => ne_of_true_of_false hfirst rfl (List.cons.inj h).1

/-- A field is added to the table at hand. -/
theorem takes_field (hname : IsBareName name) {value : Scalar} (hvalue : value.ReadsBack)
    (hfree : Entries.get? name document.current = none) :
    Takes (fieldChars (name, value)) document
      { document with current := document.current ++ [(name, value.item)] } := by
  obtain ⟨first, others, hsplit, hfirst⟩ := hname.exists_cons
  have hadd : document.add? [name] value.item =
      some { document with current := document.current ++ [(name, value.item)] } := by
    simp [Document.add?, Entries.addKey?, Entries.addDotted?, Entries.add?, hfree]
  have hline : fieldChars (name, value) =
      first :: (others ++ ' ' :: '=' :: ' ' :: value.chars) ++ ['\n'] := by
    simp [fieldChars, hsplit]
  rw [hline]
  refine takes_statement (isSpace_of_isBare hfirst) (ne_of_true_of_false hfirst rfl)
    (ne_of_true_of_false hfirst rfl) (ne_of_true_of_false hfirst rfl) fun rest => ?_
  have hkey : key? nestingLimit
      (name.toList ++ ' ' :: '=' :: ' ' :: (value.chars ++ '\n' :: rest)) =
        some ([name], '=' :: ' ' :: (value.chars ++ '\n' :: rest)) := key?_name hname rfl nofun
  have hskip : skipSpaces (' ' :: (value.chars ++ '\n' :: rest)) = value.chars ++ '\n' :: rest := by
    obtain ⟨c, cs, hchars, hspace, -⟩ := Scalar.exists_chars_eq_cons hvalue
    rw [hchars, List.cons_append]
    exact skipSpaces_cons hspace _
  have hchars : first :: (others ++ ' ' :: '=' :: ' ' :: value.chars) ++ '\n' :: rest =
      name.toList ++ ' ' :: '=' :: ' ' :: (value.chars ++ '\n' :: rest) := by
    simp [hsplit]
  have hassignment : assignment? (value? nestingLimit)
      (name.toList ++ ' ' :: '=' :: ' ' :: (value.chars ++ '\n' :: rest)) =
        some (([name], value.item), '\n' :: rest) := by
    rw [assignment?, hkey]
    simp [Timestamp.skip?, hskip, Scalar.value?_chars hvalue]
  rw [hchars, statement?]
  · rw [hassignment]
    simp [hadd]
  · rw [hsplit]
    exact fun _ h => ne_of_true_of_false hfirst rfl (List.cons.inj h).1
  · rw [hsplit]
    exact fun _ h => ne_of_true_of_false hfirst rfl (List.cons.inj h).1

/-! ## Tables -/

/-- The values of fields. -/
def fieldEntries (fields : List (String × Scalar)) : Entries :=
  fields.map fun field => (field.1, field.2.item)

/-- The tables that are read back. -/
def tableEntries (tables : List Table) : Entries :=
  tables.map fun table => (table.1, .table .header (fieldEntries table.2))

/-- Whether a table is read back as it was: no name needs quotes or is given twice, and every value
is read back. -/
def Table.ReadsBack (table : Table) : Prop :=
  IsBareName table.1 ∧ (table.2.map Prod.fst).Nodup ∧
    ∀ field ∈ table.2, IsBareName field.1 ∧ field.2.ReadsBack

/-- A name that is not given has no value. -/
theorem get?_eq_none {entries : Entries} (h : name ∉ entries.map Prod.fst) :
    Entries.get? name entries = none := by
  have hnone : entries.find? (fun entry => entry.1 == name) = none :=
    List.find?_eq_none.mpr fun entry hentry heq =>
      h (List.mem_map.mpr ⟨entry, hentry, by simpa using heq⟩)
  rw [Entries.get?, hnone, Option.map_none]

/-- The fields of a table are read behind the ones that it already has. -/
theorem takes_fields {fields : List (String × Scalar)}
    (hfields : ∀ field ∈ fields, IsBareName field.1 ∧ field.2.ReadsBack)
    (hnames : (document.current.map Prod.fst ++ fields.map Prod.fst).Nodup) :
    Takes (fields.flatMap fieldChars) document
      { document with current := document.current ++ fieldEntries fields } := by
  induction fields generalizing document with
  | nil =>
      rw [fieldEntries, List.map_nil, List.append_nil]
      exact takes_nil document
  | cons field fields ih =>
      obtain ⟨⟨hname, hvalue⟩, hfields⟩ := List.forall_mem_cons.mp hfields
      have hfree : Entries.get? field.1 document.current = none := by
        refine get?_eq_none fun hmem => ?_
        exact (List.nodup_append.mp hnames).2.2 _ hmem _ List.mem_cons_self rfl
      have hlines := (takes_field hname hvalue hfree).append (ih hfields (by simpa using hnames))
      simpa [fieldEntries] using hlines

/-- A table is added to those before it. -/
theorem takes_table {table : Table} (htable : table.ReadsBack) {complete : Entries}
    (hsettle : document.settle? = some complete) (hnew : table.1 ∉ complete.map Prod.fst) :
    ∃ after, Takes (tableChars table) document after ∧
      after.settle? = some (complete ++ tableEntries [table]) := by
  obtain ⟨hname, hnames, hfields⟩ := htable
  have hfree := get?_eq_none hnew
  refine ⟨⟨complete, [table.1], false, fieldEntries table.2⟩, ?_, ?_⟩
  · have hheader := takes_header hname hsettle hfree
    have hlines := hheader.append (takes_fields hfields (by simpa using hnames))
    simpa [tableChars] using hlines
  · simp [Document.settle?, Entries.changeAt?, Entries.add?, hfree, tableEntries]

/-- Tables are added to those before them. -/
theorem takes_tables {tables : List Table} (htables : ∀ table ∈ tables, table.ReadsBack)
    {complete : Entries} (hsettle : document.settle? = some complete)
    (hnames : (complete.map Prod.fst ++ tables.map Prod.fst).Nodup) :
    ∃ after, Takes (['\n'].intercalate (tables.map tableChars)) document after ∧
      after.settle? = some (complete ++ tableEntries tables) := by
  induction tables generalizing document complete with
  | nil => exact ⟨document, takes_nil document, by rw [hsettle, tableEntries]; simp⟩
  | cons table tables ih =>
      obtain ⟨htable, htables⟩ := List.forall_mem_cons.mp htables
      have hnew : table.1 ∉ complete.map Prod.fst := fun hmem =>
        (List.nodup_append.mp hnames).2.2 _ hmem _ List.mem_cons_self rfl
      obtain ⟨middle, hfirst, hmiddle⟩ := takes_table htable hsettle hnew
      cases tables with
      | nil => exact ⟨middle, by simpa [List.intercalate] using hfirst, hmiddle⟩
      | cons next tables =>
          obtain ⟨after, hothers, hafter⟩ := ih htables hmiddle (by
            simpa [tableEntries] using hnames)
          refine ⟨after, ?_, by simpa [tableEntries] using hafter⟩
          have hlines := (hfirst.append (takes_blank middle)).append hothers
          simpa [List.intercalate] using hlines

/-- A file that is written does not begin with a byte order mark. -/
theorem skipMark_intercalate (tables : List Table) :
    skipMark (['\n'].intercalate (tables.map tableChars)) =
      ['\n'].intercalate (tables.map tableChars) := by
  cases tables with
  | nil => rfl
  | cons table tables => cases tables <;> rfl

/-- Tables are read back as they were written. -/
theorem read?_fileText {tables : List Table} (htables : ∀ table ∈ tables, table.ReadsBack)
    (hnames : (tables.map Prod.fst).Nodup) :
    read? (fileText tables) = some (tableEntries tables) := by
  have hsettle : Document.start.settle? = some [] := rfl
  obtain ⟨after, ⟨count, hcount, hlines⟩, hafter⟩ := takes_tables htables hsettle hnames
  rw [read?, fileText, String.toList_ofList, skipMark_intercalate]
  generalize ['\n'].intercalate (tables.map tableChars) = cs at hcount hlines
  have hread : lines? cs.length Document.start cs = some after := by
    have hend := hlines (cs.length - count) []
    rw [Nat.sub_add_cancel hcount, List.append_nil] at hend
    rw [hend, lines?.eq_def]
  rw [hread]
  exact hafter

end PodCosts.Toml
