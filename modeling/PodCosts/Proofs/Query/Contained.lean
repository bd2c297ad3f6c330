import PodCosts.Proofs.Query.Rendered
import PodCosts.Request.Labels

/-!
# Strings of callers in requests

Whatever string a caller passes, it is one literal of the request. All other lexemes are the same
for every string, so the requests for two names, or for two label maps with as many pairs, differ in
literals only.
-/

namespace PodCosts

open Lexeme (Reads IsWord)

namespace Lexeme

/-- Whether two sequences of lexemes differ at most where one has the first and the other has the
second string of a pair as a literal. -/
def AgreeBut (strings : List (String × String)) : List Lexeme → List Lexeme → Prop :=
  List.Forall₂ fun left right =>
    left = right ∨ ∃ pair ∈ strings, left = .literal pair.1 ∧ right = .literal pair.2

namespace AgreeBut

variable {strings : List (String × String)}

/-- Lexemes differ nowhere from themselves. -/
theorem refl (lexemes : List Lexeme) : AgreeBut strings lexemes lexemes :=
  List.forall₂_same.mpr fun _ _ => .inl rfl

/-- Sequences that agree part by part agree. -/
theorem append {before before' after after' : List Lexeme}
    (hbefore : AgreeBut strings before before') (hafter : AgreeBut strings after after') :
    AgreeBut strings (before ++ after) (before' ++ after') :=
  List.rel_append hbefore hafter

/-- Comparisons of one predicate with two strings. -/
theorem eqLexemes {first second : String} (hmem : (first, second) ∈ strings)
    (predicate : String) :
    AgreeBut strings (Filter.eqLexemes predicate first) (Filter.eqLexemes predicate second) := by
  have hliteral : AgreeBut strings [.literal first] [.literal second] :=
    .cons (.inr ⟨_, hmem, rfl, rfl⟩) .nil
  exact ((refl [.word "eq", .mark '(', .word predicate, .mark ',']).append hliteral).append
    (refl [.mark ')'])

/-- Rows that agree part by part, with the same separator. -/
theorem intercalate {parts parts' : List (List Lexeme)} (separator : List Lexeme)
    (hparts : List.Forall₂ (AgreeBut strings) parts parts') :
    AgreeBut strings (List.intercalate separator parts) (List.intercalate separator parts') := by
  induction hparts with
  | nil => exact .nil
  | cons hpart hrest ih =>
      cases hrest with
      | nil =>
          rw [List.intercalate_singleton, List.intercalate_singleton]
          exact hpart
      | cons hnext hothers =>
          rw [List.intercalate_cons_cons, List.intercalate_cons_cons]
          exact (hpart.append (refl separator)).append ih

end AgreeBut

end Lexeme

open Lexeme (AgreeBut)

/-! ## Names of the fixed parts -/

namespace Selection

/-- All names in two lists of selections are words if those in both lists are. -/
theorem allWellNamed_append {selections others : List Selection} :
    AllWellNamed (selections ++ others) ↔ AllWellNamed selections ∧ AllWellNamed others := by
  induction selections with
  | nil => simp [AllWellNamed]
  | cons selection selections ih => simp [AllWellNamed, ih, and_assoc]

end Selection

namespace Request

open Selection (AllWellNamed allWellNamed_append)

/-- The names in the part of a request that computes hours are words. -/
theorem wellNamed_durationSelections (level : Level) (window : Float) :
    AllWellNamed (durationSelections level window) := by
  simp only [durationSelections, AllWellNamed, Selection.WellNamed, Expr.WellNamed]
  cases level <;> decide

/-- The names in the product for a cost are words. -/
theorem wellNamed_cost (level : Level) {amount : String} (h : IsWord amount) (price : Float) :
    (cost level amount price).WellNamed := by
  have hhours : IsWord level.hours := by cases level <;> decide
  exact ⟨⟨h, hhours⟩, trivial⟩

/-- The names in the part of a request that computes costs are words. -/
theorem wellNamed_costSelections (level : Level) (window : Float) (rates : Rates) :
    AllWellNamed (costSelections level window rates) := by
  have hcpu : IsWord (level.var "cpu") := by cases level <;> decide
  have hmemory : IsWord (level.var "memory") := by cases level <;> decide
  have hstorage : IsWord (level.var "storage") := by cases level <;> decide
  simp only [costSelections, allWellNamed_append]
  refine ⟨⟨⟨⟨?_, ?_⟩, wellNamed_durationSelections level window⟩, ?_⟩, ?_⟩
  · simp only [AllWellNamed, Selection.WellNamed]
    cases level <;> decide
  · cases rates.storage with
    | none => trivial
    | some price =>
        simp only [AllWellNamed, Selection.WellNamed]
        cases level <;> decide
  · exact ⟨⟨by decide, wellNamed_cost level hcpu _⟩, ⟨by decide, wellNamed_cost level hmemory _⟩,
      trivial⟩
  · cases rates.storage with
    | none => trivial
    | some price => exact ⟨⟨by decide, wellNamed_cost level hstorage price⟩, trivial⟩

/-- A predicate is selected by a word. -/
theorem wellNamed_plain {name : String} (h : IsWord name) :
    (Selection.predicate .plain name).WellNamed :=
  ⟨by decide, h⟩

/-- The predicate of names is a word. -/
theorem wellNamed_nameOnly : nameOnly.WellNamed :=
  wellNamed_plain (by decide)

/-- The predicate that marks a kind of nodes is a word. -/
theorem isWord_marker (kind : Kind) : IsWord kind.marker := by
  cases kind <;> decide

/-- The names are words where the nodes of a kind that point at a pod are selected, if those of
their selections are. -/
theorem wellNamed_pointingAtPod {tag : Tag} (htag : tag.WellNamed) (kind : Kind)
    {selections : List Selection} (h : AllWellNamed selections) :
    (pointingAtPod tag kind selections).WellNamed := by
  refine ⟨htag, by decide, ?_, h⟩
  rintro filter ⟨⟩
  exact isWord_marker kind

/-- The names are words where the containers of a pod are selected, if those of their selections
are. -/
theorem wellNamed_children {selections : List Selection} (h : AllWellNamed selections) :
    (children selections).WellNamed :=
  wellNamed_pointingAtPod (by decide) .container
    ⟨wellNamed_nameOnly, wellNamed_plain (by decide), h⟩

/-! ## Requests about one pod -/

/-- A request of one block about the pods of a name. -/
def aboutName (block : String) (selections : List Selection) (name : String) : Query :=
  ⟨[⟨block, allOf .pod, some (.eq Predicate.name name), selections⟩]⟩

/-- Whether a request has the same lexemes for every name, apart from the literal that a predicate
is compared with. -/
def NameContained (request : String → Query) : Prop :=
  (∃ before after, ∀ name,
    Reads (request name).text (before ++ Filter.eqLexemes Predicate.name name ++ after)) ∧
  ∀ first second, ∃ lexemes lexemes', Reads (request first).text lexemes ∧
    Reads (request second).text lexemes' ∧ AgreeBut [(first, second)] lexemes lexemes'

/-- The names in a request about one pod are words whatever its name is. -/
theorem wellNamed_aboutName {block : String} {selections : List Selection}
    (hblock : IsWord block) (hselections : AllWellNamed selections) (name : String) :
    (aboutName block selections name).WellNamed := by
  have hpredicate : IsWord Predicate.name := by decide
  intro part hpart
  obtain rfl := List.mem_singleton.mp hpart
  refine ⟨hblock, isWord_marker .pod, ?_, hselections⟩
  rintro filter ⟨⟩
  exact hpredicate

/-- The name is one literal between lexemes that do not depend on it. -/
theorem lexemes_aboutName (block : String) (selections : List Selection) :
    ∃ before after, ∀ name, (aboutName block selections name).lexemes =
      before ++ Filter.eqLexemes Predicate.name name ++ after := by
  let before : List Lexeme :=
    [Lexeme.word "query", .mark '\x7b', .word block, .mark '(', .word "func", .mark ':'] ++
      (allOf .pod).lexemes ++ [Lexeme.mark ')', .mark '@', .word "filter", .mark '(']
  let after : List Lexeme :=
    [Lexeme.mark ')', .mark '\x7b'] ++ (Selection.lineLexemesOfAll selections).flatten ++
      [Lexeme.mark '\x7d', .mark '\x7d']
  refine ⟨before, after, fun name => ?_⟩
  simp [before, after, Query.lexemes, aboutName, Block.lineLexemes, Filter.clauseLexemes,
    Filter.lexemes]

/-- In a request of one block about one pod the name is one literal. -/
theorem nameContained_aboutName {block : String} {selections : List Selection}
    (hblock : IsWord block) (hselections : AllWellNamed selections) :
    NameContained (aboutName block selections) := by
  obtain ⟨before, after, hlexemes⟩ := lexemes_aboutName block selections
  have hreads : ∀ name, Reads (aboutName block selections name).text
      (before ++ Filter.eqLexemes Predicate.name name ++ after) := by
    intro name
    rw [← hlexemes]
    exact Query.reads_text (wellNamed_aboutName hblock hselections name)
  refine ⟨⟨before, after, hreads⟩, fun first second =>
    ⟨_, _, hreads first, hreads second, ?_⟩⟩
  exact ((AgreeBut.refl before).append
    (AgreeBut.eqLexemes List.mem_cons_self Predicate.name)).append (AgreeBut.refl after)

/-- In a request for the interactions of a pod the name is one literal. -/
theorem nameContained_interactions (orphansOnly : Bool) :
    NameContained fun name => interactions (.named name) orphansOnly := by
  have hblock : IsWord podsBlock := by decide
  refine nameContained_aboutName hblock
    ⟨wellNamed_nameOnly, ⟨by decide, by decide, ?_, wellNamed_nameOnly, trivial⟩,
      wellNamed_pointingAtPod (by decide) .pod ⟨wellNamed_nameOnly, trivial⟩, trivial⟩
  rintro filter ⟨⟩

/-- In a request for a pod and its containers the name is one literal. -/
theorem nameContained_parent {selections : List Selection} (h : AllWellNamed selections) :
    NameContained fun name => parent name selections :=
  nameContained_aboutName (by decide) ⟨wellNamed_nameOnly, wellNamed_plain (by decide), h⟩

/-- In a request for a hierarchy the name is one literal. -/
theorem nameContained_hierarchy : NameContained hierarchy :=
  nameContained_parent ⟨wellNamed_children trivial, trivial⟩

/-- In a request for a hierarchy with costs the name is one literal. -/
theorem nameContained_costHierarchy (window : Float) (rates : Rates) :
    NameContained fun name => costHierarchy name window rates :=
  nameContained_parent ⟨wellNamed_children (wellNamed_costSelections .child window _),
    wellNamed_costSelections .parent window rates⟩

/-- In a request for prices the name is one literal. -/
theorem nameContained_priceLookup : NameContained priceLookup :=
  nameContained_aboutName (by decide)
    ⟨wellNamed_plain (by decide), wellNamed_plain (by decide), trivial⟩

/-! ## Requests by label -/

/-- What is read from the comparison of a label with a pair. -/
def pairLexemes (pair : String × String) : List Lexeme :=
  [.mark '('] ++ Filter.eqLexemes Predicate.labelKey pair.1 ++ [.word "AND"] ++
    Filter.eqLexemes Predicate.labelValue pair.2 ++ [.mark ')']

/-- The alternatives of a label request are read as one comparison for each pair. -/
theorem lexemes_pairFilters (pairs : List (String × String)) :
    (Filter.or (pairs.map pairFilter)).lexemes =
      List.intercalate [.word "OR"] (pairs.map pairLexemes) := by
  rw [Filter.lexemes, Filter.operandLexemes_eq_map, List.map_map]
  rfl

/-- The names in a request by label are words whatever its pairs are. -/
theorem wellNamed_labelUids (pairs : List (String × String)) :
    (labelUids (.or (pairs.map pairFilter))).WellNamed := by
  have hkey : IsWord Predicate.labelKey := by decide
  have hvalue : IsWord Predicate.labelValue := by decide
  have hsilent : IsWord Block.silentName := by decide
  have hlabeled : IsWord labeledPods := by decide
  have hplain : Tag.plain.WellNamed := by decide
  have hmarker := isWord_marker
  have hpairs : Filter.AllWellNamed (pairs.map pairFilter) := by
    rw [Filter.allWellNamed_iff]
    intro filter hfilter
    obtain ⟨pair, -, rfl⟩ := List.mem_map.mp hfilter
    exact ⟨hkey, hvalue, trivial⟩
  intro block hblock
  rcases List.mem_cons.mp hblock with rfl | hblock
  · refine ⟨hsilent, hmarker .label, ?_, ⟨by decide, by decide, ?_, ?_⟩, trivial⟩
    · rintro filter ⟨⟩
      exact hpairs
    · rintro filter ⟨⟩
      exact hmarker .pod
    · exact ⟨wellNamed_nameOnly, trivial⟩
  · obtain rfl := List.mem_singleton.mp hblock
    refine ⟨by decide, hlabeled, ?_, hplain, wellNamed_nameOnly, trivial⟩
    rintro filter ⟨⟩

/-- The keys and values are literals between lexemes that do not depend on them. -/
theorem lexemes_labelUids : ∃ before after, ∀ pairs : List (String × String),
    (labelUids (.or (pairs.map pairFilter))).lexemes =
      before ++ List.intercalate [.word "OR"] (pairs.map pairLexemes) ++ after := by
  let before : List Lexeme :=
    [Lexeme.word "query", .mark '\x7b', .word Block.silentName, .mark '(', .word "func",
      .mark ':'] ++ (allOf .label).lexemes ++
      [Lexeme.mark ')', .mark '@', .word "filter", .mark '(']
  let gathered : List Lexeme :=
    (Selection.lineLexemesOfAll [.edge (.bound labeledPods) (.backward Predicate.labelEdge)
      (some (.has Kind.pod.marker)) [nameOnly]]).flatten
  let answered : List Lexeme :=
    (Block.lineLexemes ⟨podsBlock, .uid labeledPods, none, [.uid .plain, nameOnly]⟩).flatten
  let after : List Lexeme :=
    [Lexeme.mark ')', .mark '\x7b'] ++ gathered ++ [Lexeme.mark '\x7d'] ++ answered ++
      [Lexeme.mark '\x7d']
  refine ⟨before, after, fun pairs => ?_⟩
  rw [← lexemes_pairFilters]
  simp [before, after, gathered, answered, Query.lexemes, labelUids, Block.silent,
    Block.lineLexemes, Filter.clauseLexemes]

/-- The strings of two lists of pairs that stand at the same place. -/
def corresponding (pairs others : List (String × String)) : List (String × String) :=
  (pairs.zip others).flatMap fun both => [(both.1.1, both.2.1), (both.1.2, both.2.2)]

/-- Comparisons with as many pairs differ only in the keys and values that correspond. -/
theorem agreeBut_pairLexemes {pairs others : List (String × String)}
    (hlength : pairs.length = others.length) :
    List.Forall₂ (AgreeBut (corresponding pairs others)) (pairs.map pairLexemes)
      (others.map pairLexemes) := by
  rw [List.forall₂_map_left_iff, List.forall₂_map_right_iff, List.forall₂_iff_zip]
  refine ⟨hlength, fun {pair other} hmem => ?_⟩
  have hkeys : (pair.1, other.1) ∈ corresponding pairs others :=
    List.mem_flatMap.mpr ⟨_, hmem, List.mem_cons_self⟩
  have hvalues : (pair.2, other.2) ∈ corresponding pairs others :=
    List.mem_flatMap.mpr ⟨_, hmem, List.mem_cons_of_mem _ List.mem_cons_self⟩
  have hkey := AgreeBut.eqLexemes hkeys Predicate.labelKey
  have hvalue := AgreeBut.eqLexemes hvalues Predicate.labelValue
  exact ((((AgreeBut.refl _).append hkey).append (AgreeBut.refl _)).append hvalue).append
    (AgreeBut.refl _)

/-- No string of a caller reaches out of its literal. The name in a request about one pod, and the
keys and values in a request by label, are literals behind `eq` that are read as the strings
themselves, and every other lexeme is the same whatever the strings are. -/
theorem strings_contained :
    (∀ orphansOnly, NameContained fun name => interactions (.named name) orphansOnly) ∧
    NameContained hierarchy ∧
    NameContained priceLookup ∧
    (∀ window rates, NameContained fun name => costHierarchy name window rates) ∧
    (∃ before after, ∀ labels : LabelMap, labels.pairs ≠ [] →
      ∃ filter, labelFilter? labels = some filter ∧ Reads (labelUids filter).text
        (before ++ List.intercalate [.word "OR"] (labels.pairs.map pairLexemes) ++ after)) ∧
    ∀ labels others : LabelMap, labels.pairs ≠ [] →
      labels.pairs.length = others.pairs.length →
      ∃ filter filter' lexemes lexemes', labelFilter? labels = some filter ∧
        labelFilter? others = some filter' ∧ Reads (labelUids filter).text lexemes ∧
        Reads (labelUids filter').text lexemes' ∧
        AgreeBut (corresponding labels.pairs others.pairs) lexemes lexemes' := by
  obtain ⟨before, after, hlexemes⟩ := lexemes_labelUids
  have hfilter : ∀ labels : LabelMap, labels.pairs ≠ [] →
      labelFilter? labels = some (.or (labels.pairs.map pairFilter)) := by
    intro labels hpairs
    rw [labelFilter?, if_neg (by simpa using hpairs)]
  have hreads : ∀ labels : LabelMap, Reads (labelUids (.or (labels.pairs.map pairFilter))).text
      (before ++ List.intercalate [.word "OR"] (labels.pairs.map pairLexemes) ++ after) := by
    intro labels
    rw [← hlexemes]
    exact Query.reads_text (wellNamed_labelUids labels.pairs)
  refine ⟨nameContained_interactions, nameContained_hierarchy, nameContained_priceLookup,
    nameContained_costHierarchy, ?_, ?_⟩
  · exact ⟨before, after, fun labels hpairs => ⟨_, hfilter labels hpairs, hreads labels⟩⟩
  · intro labels others hpairs hlength
    have hothers : others.pairs ≠ [] := by
      rw [← List.length_pos_iff, ← hlength]
      exact List.length_pos_iff.mpr hpairs
    refine ⟨_, _, _, _, hfilter labels hpairs, hfilter others hothers, hreads labels,
      hreads others, ?_⟩
    have hrow := AgreeBut.intercalate [.word "OR"] (agreeBut_pairLexemes hlength)
    exact ((AgreeBut.refl before).append hrow).append (AgreeBut.refl after)

end Request

end PodCosts
