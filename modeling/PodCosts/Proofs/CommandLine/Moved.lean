import PodCosts.Proofs.CommandLine.Front
import PodCosts.Run

/-!
# Options on either side of the name of the subcommand

A shared option that is given in front of the name of the subcommand may be moved directly behind
it, unless it is given there as well: what is held for it in front is then held behind, and either
side is looked at in the end.
-/

namespace PodCosts.CommandLine

/-! ## What the two sides come to -/

/-- What is asked for by the two sides when all their values have been checked. -/
def combined (before behind : Reading) : Except Refusal Invocation :=
  match behind.subcommand with
  | none => .error .missingSubcommand
  | some subcommand => do
    let command ← commandOf subcommand behind
    .ok
      { workspace := (behind.workspace.or before.workspace).getD "."
        endpoint := behind.endpoint.or before.endpoint
        printQuery := behind.printQuery || before.printQuery
        logFormat := (behind.logFormat.or before.logFormat).getD .human
        command }

/-- What is held in front may as well be held behind, if nothing is held there so far. -/
theorem combined_put {before behind : Reading} {held : Held} (hbefore : before.Lacks held)
    (hbehind : behind.Lacks held) :
    combined before (behind.put held) = combined (before.put held) behind := by
  have hcommand : ∀ subcommand, commandOf subcommand (behind.put held) =
      commandOf subcommand behind := by
    intro subcommand
    cases subcommand <;> cases held <;> rfl
  unfold combined
  rw [Reading.subcommand_put]
  split
  · rfl
  · rw [hcommand]
    cases held <;> simp only [Reading.Lacks] at hbefore hbehind <;>
      simp [Reading.put, hbefore, hbehind]

/-- An argument list is accepted if both sides can be read and together ask for a run. -/
theorem parse_eq_ok_iff {args : List String} {invocation : Invocation} :
    parse args = .ok invocation ↔
      ∃ sides before behind, readSides (Reading.start none) args = .ok sides ∧
        sides.before.settle = .ok before ∧ sides.behind.settle = .ok behind ∧
        combined before behind = .ok invocation := by
  constructor
  · intro hparse
    obtain ⟨sides, hsides, hparse⟩ := exists_of_bind_eq_ok hparse
    obtain ⟨behind, hbehind, hparse⟩ := exists_of_bind_eq_ok hparse
    rcases hsubcommand : behind.subcommand with _ | subcommand <;> rw [hsubcommand] at hparse
    · cases hparse
    · obtain ⟨command, hcommand, hparse⟩ := exists_of_bind_eq_ok hparse
      obtain ⟨before, hbefore, hinvocation⟩ := exists_of_bind_eq_ok hparse
      refine ⟨sides, before, behind, hsides, hbefore, hbehind, ?_⟩
      simp only [combined, hsubcommand, hcommand]
      exact hinvocation
  · rintro ⟨sides, before, behind, hsides, hbefore, hbehind, hcombined⟩
    rcases hsubcommand : behind.subcommand with _ | subcommand <;>
      rw [combined, hsubcommand] at hcombined
    · cases hcombined
    · obtain ⟨command, hcommand, hinvocation⟩ := exists_of_bind_eq_ok hcombined
      simp only [parse, hsides, hbehind, hsubcommand, hcommand, hbefore, bind, Except.bind]
      exact hinvocation

section

variable {name : String} {behind : List String} {invocation : Invocation}

/-- Options, the name of a subcommand and what stands behind it are accepted if the options can be
taken, what stands behind the name can be read, and both together ask for a run. -/
theorem parse_line_eq_ok_iff {subcommand : Subcommand} {givens : List Given}
    (hname : Subcommand.ofText? name = some subcommand) :
    parse (line givens name behind) = .ok invocation ↔
      ∃ before after, givens.foldlM Reading.take (Reading.start none) = .ok before ∧
        (Reading.start (some subcommand)).arguments behind >>= Reading.settle = .ok after ∧
        combined before after = .ok invocation := by
  have hfront : (Reading.start none).arguments (givens.flatMap Given.args) >>= Reading.settle =
      givens.foldlM Reading.take (Reading.start none) :=
    Reading.arguments_flatMap rfl givens
  rw [parse_eq_ok_iff, readSides_line hname rfl rfl, ← hfront]
  constructor
  · rintro ⟨sides, before, after, hsides, hbefore, hafter, hcombined⟩
    obtain ⟨front, hfront, hsides⟩ := exists_of_bind_eq_ok hsides
    obtain ⟨back, hback, hsides⟩ := exists_of_bind_eq_ok hsides
    cases hsides
    rw [hfront, hback]
    exact ⟨before, after, hbefore, hafter, hcombined⟩
  · rintro ⟨before, after, hbefore, hafter, hcombined⟩
    obtain ⟨front, hfront, hbefore⟩ := exists_of_bind_eq_ok hbefore
    obtain ⟨back, hback, hafter⟩ := exists_of_bind_eq_ok hafter
    rw [hfront, hback]
    exact ⟨⟨front, back⟩, before, after, rfl, hbefore, hafter, hcombined⟩

/-- No accepted argument list begins with two dashes. -/
theorem withoutMark_of_parse {args : List String} (haccepted : parse args = .ok invocation) :
    withoutMark args = args := by
  unfold withoutMark
  split
  · obtain ⟨sides, -, -, hsides, -⟩ := parse_eq_ok_iff.mp haccepted
    have hname : ¬IsName "--" := fun hname => absurd (isWord_of_isName hname) (by decide)
    rw [readSides_cons (.inr hname), Reading.argument_dashes rfl] at hsides
    exact absurd hsides (readSides_ne_ok rfl rfl)
  · rfl

/-- What is held for an option that is not given behind the name makes no difference there. -/
theorem lacks_of_arguments {side : Option Subcommand} {after : Reading} {held : Held}
    (hgives : ¬Gives held.option.text behind)
    (hread : (Reading.start side).arguments behind >>= Reading.settle = .ok after) :
    after.Lacks held ∧
      ((Reading.start side).put held).arguments behind >>= Reading.settle =
        .ok (after.put held) := by
  have hfree : ∀ other : Held, (Reading.start side).Free other := fun _ =>
    Reading.free_of_pending rfl
  have hput := Reading.arguments_put (hfree held) fun _ => hgives
  have hnothing := Reading.arguments_put (hfree held.nothing) fun _ => by
    rwa [Reading.option_nothing]
  rw [hread] at hput hnothing
  rw [Reading.put_nothing_of_lacks (Reading.lacks_start side), hread] at hnothing
  refine ⟨?_, hput⟩
  rw [Except.ok.inj hnothing]
  exact Reading.lacks_put_nothing

/-- An argument list that is accepted consists of shared options, the name of a subcommand and what
stands behind it. An option in front that is not given behind the name may be moved directly behind
it: the list is still accepted and asks for the same run, also with the mark that a run takes away.
-/
theorem parse_moved {args : List String} (haccepted : parse args = .ok invocation) :
    (∃ givens name behind, (Subcommand.ofText? name).isSome ∧ args = line givens name behind) ∧
    ∀ earlier given later name behind, (Subcommand.ofText? name).isSome →
      args = line (earlier ++ given :: later) name behind → ¬Gives given.option.text behind →
      let moved := line (earlier ++ later) name (given.args ++ behind)
      parse moved = .ok invocation ∧
        ∀ mark ∈ [[], ["--"]], parse (withoutMark (mark ++ moved)) = .ok invocation := by
  constructor
  · obtain ⟨sides, -, -, hsides, -⟩ := parse_eq_ok_iff.mp haccepted
    exact isLine_of_readSides rfl rfl hsides
  · rintro earlier given later name behind hsome rfl hgives moved
    obtain ⟨subcommand, hname⟩ := Option.isSome_iff_exists.mp hsome
    obtain ⟨before, after, hbefore, hafter, hcombined⟩ :=
      (parse_line_eq_ok_iff hname).mp haccepted
    obtain ⟨held, others, hcheck, hothers, hlacks, rfl⟩ :=
      Reading.exists_of_foldlM_take rfl hbefore
    rw [← (Given.isOf_of_check hcheck).option_eq] at hgives
    obtain ⟨hbehind, hput⟩ := lacks_of_arguments hgives hafter
    have htake : (Reading.start (some subcommand)).take given =
        .ok ((Reading.start (some subcommand)).put held) :=
      (Reading.take_eq_ok_iff rfl).mpr ⟨held, hcheck, Reading.lacks_start _, rfl⟩
    have hmoved : parse moved = .ok invocation := by
      refine (parse_line_eq_ok_iff hname).mpr ⟨others, after.put held, hothers, ?_, ?_⟩
      · rw [Reading.arguments_args_append rfl rfl htake, hput]
      · rw [combined_put hlacks hbehind, hcombined]
    refine ⟨hmoved, fun mark hmark => ?_⟩
    obtain rfl | rfl : mark = [] ∨ mark = ["--"] := by simpa using hmark
    · rw [List.nil_append, withoutMark_of_parse hmoved, hmoved]
    · exact hmoved

end

/-- The value of the option that is moved is the name of another subcommand, and values on both
sides are spelled like the option. -/
theorem parse_moved_lookalikes :
    let given : Given := .apart .endpoint "live-pods" (by decide)
    let behind := ["--label", "app=web", "--log-format", "json", "--label=--endpoint=x"]
    let args := ["--workspace=--endpoint", "--endpoint", "live-pods", "--print-query", "labels"] ++
      behind
    let moved := ["--workspace=--endpoint", "--print-query", "labels", "--endpoint", "live-pods"] ++
      behind
    let invocation : Invocation :=
      ⟨"--endpoint", some "live-pods", true, .json,
        .labels [("app", "web"), ("--endpoint", "x")]⟩
    parse args = .ok invocation ∧ (Subcommand.ofText? "labels").isSome ∧
      args = line ([.joined .workspace "--endpoint"] ++ given :: [.printQuery]) "labels" behind ∧
      ¬Gives given.option.text behind ∧ parse moved = .ok invocation := by
  intro given behind args moved invocation
  have haccepted : parse args = .ok invocation := by rfl
  have hgives : ¬Gives given.option.text behind := by decide
  have hname : (Subcommand.ofText? "labels").isSome := by decide
  obtain ⟨-, hmoved⟩ := parse_moved haccepted
  exact ⟨haccepted, hname, rfl, hgives,
    (hmoved [.joined .workspace "--endpoint"] given [.printQuery] "labels" behind hname rfl
      hgives).1⟩

end PodCosts.CommandLine
