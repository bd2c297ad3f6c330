import PodCosts.Proofs.Settings.Endpoint
import PodCosts.Run

/-!
# Which store is asked

A run asks the store at the endpoint it is given, unless that is blank, and otherwise the one of the
settings. The settings drop the slashes at the end of their endpoint before they look whether
anything is left of it, and are trimmed once more on the way to the store. The endpoint of a run is
only looked at before its slashes are dropped. One text therefore leads to one store either way,
unless it consists of slashes or has a blank in front of those at its end.
-/

namespace PodCosts

/-- What has been trimmed is not trimmed any further. -/
theorem Text.trimChars_trimChars (cs : List Char) : trimChars (trimChars cs) = trimChars cs :=
  trimChars_eq_self (head?_trimChars cs) (getLast?_trimChars cs)

/-- Whether a text is nothing but slashes, apart from blanks around them. -/
def OnlySlashes (text : String) : Prop :=
  ∀ c ∈ Text.trimChars text.toList, c = '/'

instance (text : String) : Decidable (OnlySlashes text) :=
  List.decidableBAll (· = '/') (Text.trimChars text.toList)

/-! ## Endpoints that are trimmed twice -/

section

variable (text : String)

/-- Nothing is left of an endpoint that is nothing but slashes. -/
theorem trimEndpoint_eq_empty_iff : trimEndpoint text = "" ↔ OnlySlashes text := by
  rw [← String.toList_inj, toList_trimEndpoint, String.toList_empty, Text.dropEndWhile,
    List.reverse_eq_nil_iff, List.dropWhile_eq_nil_iff]
  simp [OnlySlashes]

/-- Trimming the blanks beforehand makes no difference. -/
theorem trimEndpoint_trim : trimEndpoint (Text.trim text) = trimEndpoint text := by
  rw [trimEndpoint, Text.trim, String.toList_ofList, Text.trimChars_trimChars, trimEndpoint]

/-- An endpoint is trimmed further the second time exactly if a blank came to its end. -/
theorem trimEndpoint_trimEndpoint_iff :
    trimEndpoint (trimEndpoint text) = trimEndpoint text ↔ ¬BlankBeforeSlashes text := by
  rw [trimEndpoint_eq_self_iff, ← trimEndpoint_last_blank_iff]
  constructor
  · rintro ⟨-, hlast, -⟩ ⟨c, hc, hblank⟩
    rw [hlast c hc] at hblank
    cases hblank
  · intro hnone
    refine ⟨trimEndpoint_first_not_blank text, fun c hc => ?_, trimEndpoint_last_not_slash text⟩
    exact Bool.eq_false_iff.mpr fun hblank => hnone ⟨c, hc, hblank⟩

end

/-! ## The address of a run -/

/-- A connection that leads to one address only. -/
def Connection.onlyTo (connection : Connection) (url : String) : Connection := fun sent post =>
  if post.url = url then connection sent post else .error "there is no way to this address"

/-- A store is reached at its own address only. -/
theorem Store.remote_onlyTo (connection : Connection) (endpoint : String) :
    remote (connection.onlyTo (queryUrl endpoint)) endpoint = remote connection endpoint := by
  funext sent query
  have hurl : (post endpoint query).url = queryUrl endpoint := rfl
  rw [remote, remote, Connection.onlyTo, if_pos hurl]

namespace Invocation

/-- The address of the store that is asked by a run in a workspace, if there are settings. -/
def url? (invocation : Invocation) (workspace : Workspace) : Option String :=
  match workspace.ensure.1 with
  | .ok settings => some (Store.queryUrl (invocation.storeEndpoint settings))
  | .error _ => none

variable {invocation : Invocation} {workspace : Workspace}

/-- Where settings are ensured, requests go to the endpoint that is chosen from them. -/
theorem url?_of_ensure {settings : Settings} (hsettings : workspace.ensure.1 = .ok settings) :
    invocation.url? workspace = some (Store.queryUrl (invocation.storeEndpoint settings)) := by
  rw [url?, hsettings]

/-- A run sends nothing to any other address. -/
theorem run_onlyTo {url : String} (hurl : invocation.url? workspace = some url) (root : String)
    (now : Instant) (connection : Connection) :
    invocation.run root workspace now (connection.onlyTo url) =
      invocation.run root workspace now connection := by
  rw [url?] at hurl
  rw [run, run]
  rcases hensure : workspace.ensure with ⟨_ | settings, after⟩
  · rfl
  · rw [hensure] at hurl
    obtain rfl := Option.some.inj hurl
    simp only [Store.remote_onlyTo]

/-- A blank endpoint is as good as none. -/
theorem storeEndpoint_of_blank {text : String} (hgiven : invocation.endpoint = some text)
    (hblank : Text.trim text = "") (settings : Settings) :
    invocation.storeEndpoint settings = settings.store.endpoint := by
  rw [storeEndpoint, hgiven]
  exact if_pos hblank

/-- Any other endpoint is trimmed of blanks and of the slashes at its end. -/
theorem queryUrl_storeEndpoint {text : String} (hgiven : invocation.endpoint = some text)
    (hblank : Text.trim text ≠ "") (settings : Settings) :
    Store.queryUrl (invocation.storeEndpoint settings) = trimEndpoint text ++ "/query" := by
  have hendpoint : invocation.storeEndpoint settings = Text.trim text := by
    rw [storeEndpoint, hgiven]
    exact if_neg hblank
  rw [hendpoint, Store.queryUrl, trimEndpoint_trim]

end Invocation

/-- What is written as an endpoint leads to the address that it would lead to by itself, exactly if
something other than slashes is left of it and no blank in front of slashes. -/
theorem Settings.queryUrl_normalized_iff (written : Settings) :
    Store.queryUrl written.normalized.store.endpoint =
        trimEndpoint written.store.endpoint ++ "/query" ↔
      ¬OnlySlashes written.store.endpoint ∧ ¬BlankBeforeSlashes written.store.endpoint := by
  rw [Store.queryUrl, String.append_left_inj, ← trimEndpoint_trimEndpoint_iff,
    ← trimEndpoint_eq_empty_iff]
  obtain ⟨hempty, hendpoint⟩ | ⟨hne, hendpoint⟩ := endpoint_normalized written
  · -- the usual endpoint stands in for nothing, which by itself leads nowhere
    have husual := (canonicalEndpoint_iff canonicalEndpoint_standard.nonempty).mp
      canonicalEndpoint_standard
    rw [hempty, hendpoint, husual]
    exact iff_of_false canonicalEndpoint_standard.nonempty fun h => h.1 rfl
  · rw [hendpoint]
    exact ⟨fun hkept => ⟨hne, hkept⟩, fun h => h.2⟩

namespace Invocation

/-- A blank endpoint leads a run to the store of the settings. Any other text, given to a run as its
endpoint, leads to the same address as the same text written into a settings file, exactly if it
consists of more than slashes and blanks around them, and no blank stands in front of the slashes at
its end. A run sends nothing to any other address. -/
theorem endpoint_alike_iff (invocation : Invocation) (text : String) :
    let given : Invocation := { invocation with endpoint := some text }
    let bare : Invocation := { invocation with endpoint := none }
    (∀ workspace, Text.trim text = "" → given.url? workspace = bare.url? workspace) ∧
    (∀ workspace settings bytes content written, Text.trim text ≠ "" →
      workspace.ensure.1 = .ok settings → Text.decodeStrict? bytes = some content →
      Settings.written? (String.ofList content) = some written → written.store.endpoint = text →
      given.url? workspace = some (trimEndpoint text ++ "/query") ∧
        (given.url? workspace = bare.url? (.directory (.file bytes)) ↔
          ¬OnlySlashes text ∧ ¬BlankBeforeSlashes text)) ∧
    ∀ workspace url, invocation.url? workspace = some url → ∀ root now connection,
      invocation.run root workspace now (connection.onlyTo url) =
        invocation.run root workspace now connection := by
  intro given bare
  refine ⟨fun workspace hblank => ?_, ?_, fun workspace url hurl => run_onlyTo hurl⟩
  · rw [url?, url?]
    cases workspace.ensure.1 with
    | error error => rfl
    | ok settings =>
      have hgiven : given.endpoint = some text := rfl
      exact congrArg (fun endpoint => some (Store.queryUrl endpoint))
        (storeEndpoint_of_blank hgiven hblank settings)
  · rintro workspace settings bytes content written hblank hsettings hdecode hwritten rfl
    have hfile : (Workspace.directory (.file bytes)).ensure.1 = .ok written.normalized := by
      change Settings.ofBytes bytes = _
      rw [Settings.ofBytes, hdecode]
      simp only [Settings.ofText?_eq, hwritten, Option.map_some]
    have hgiven : given.url? workspace =
        some (trimEndpoint written.store.endpoint ++ "/query") := by
      rw [url?_of_ensure hsettings, queryUrl_storeEndpoint rfl hblank]
    refine ⟨hgiven, ?_⟩
    rw [hgiven, url?_of_ensure hfile, Option.some_inj, eq_comm]
    exact Settings.queryUrl_normalized_iff written

/-- An endpoint with blanks around it and two slashes at its end leads to one address, given to a
run in a new workspace or written into its settings file. -/
theorem endpoint_alike_trailing :
    let text := " http://costs:8080// "
    let bare : Invocation := ⟨".", none, false, .human, .livePods⟩
    let given : Invocation := { bare with endpoint := some text }
    let spaces : Invocation := { bare with endpoint := some "\t " }
    let content := "store.endpoint = \" http://costs:8080// \"\n"
    let workspace := Workspace.directory (.file (Text.encode content))
    let url := "http://costs:8080/query"
    Text.trim "\t " = "" ∧ spaces.url? workspace = bare.url? workspace ∧ Text.trim text ≠ "" ∧
      given.url? .absent = bare.url? workspace ∧ given.url? .absent = some url ∧
      ∀ root now connection, given.run root .absent now (connection.onlyTo url) =
        given.run root .absent now connection := by
  intro text bare given spaces content workspace url
  have hblank : Text.trim "\t " = "" := by decide +kernel
  have hwritten : Settings.written? (String.ofList content.toList) =
      some ⟨Pricing.standard, ⟨text, 30⟩⟩ := by
    rw [String.ofList_toList]
    decide +kernel
  have htext : Text.trim text ≠ "" := by decide +kernel
  obtain ⟨hspaces, -, -⟩ := endpoint_alike_iff bare "\t "
  obtain ⟨-, halike, hsent⟩ := endpoint_alike_iff given text
  obtain ⟨hurl, hsame⟩ := halike .absent Settings.standard (Text.encode content) content.toList _
    htext rfl (Text.decodeStrict?_encode content) hwritten rfl
  have hfinal : ¬BlankBeforeSlashes text := by
    rw [← trimEndpoint_trimEndpoint_iff]
    decide +kernel
  have hgiven : given.url? .absent = some url :=
    hurl.trans (by decide +kernel)
  exact ⟨hblank, hspaces workspace hblank, htext, hsame.mpr ⟨by decide +kernel, hfinal⟩, hgiven,
    hsent .absent url hgiven⟩

/-- A slash leads to an address without a server when it is given to a run, and to the usual store
when it is written into a settings file. A blank in front of the last slash is kept on one of the
two ways only. -/
theorem endpoint_alike_slash :
    let bare : Invocation := ⟨".", none, false, .human, .livePods⟩
    let given (text : String) : Invocation := { bare with endpoint := some text }
    let written (content : String) := Workspace.directory (.file (Text.encode content))
    let slash := "store.endpoint = \"/\"\n"
    let blank := "store.endpoint = \"http://costs:8080 /\"\n"
    Text.trim "/" ≠ "" ∧
      Settings.written? slash = some ⟨Pricing.standard, ⟨"/", 30⟩⟩ ∧
      (given "/").url? .absent = some "/query" ∧
      bare.url? (written slash) = some "http://127.0.0.1:8080/query" ∧
      Text.trim "http://costs:8080 /" ≠ "" ∧
      Settings.written? blank = some ⟨Pricing.standard, ⟨"http://costs:8080 /", 30⟩⟩ ∧
      (given "http://costs:8080 /").url? .absent = some "http://costs:8080 /query" ∧
      bare.url? (written blank) = some "http://costs:8080/query" := by
  intro bare given written slash blank
  have hslash : (written slash).ensure.1 = .ok Settings.standard :=
    Settings.ofBytes_encode (by decide +kernel)
  have hblank : (written blank).ensure.1 = .ok ⟨Pricing.standard, ⟨"http://costs:8080 ", 30⟩⟩ :=
    Settings.ofBytes_encode (by decide +kernel)
  refine ⟨by decide +kernel, by decide +kernel, by decide +kernel, ?_, by decide +kernel,
    by decide +kernel, by decide +kernel, ?_⟩
  · rw [url?_of_ensure hslash]
    decide +kernel
  · rw [url?_of_ensure hblank]
    decide +kernel

end Invocation

end PodCosts
