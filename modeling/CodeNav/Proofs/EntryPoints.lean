import CodeNav.Command
import CodeNav.Proofs.Clicks
import CodeNav.Proofs.WebAddresses
import CodeNav.Service

/-!
The two ways to ask for a click. The command and the service each read the text, find the line and
the token and show the answer in a form of their own. Both come down to one click on one document
(`Navigator.answerAt`), so what the command prints is what the service answers.
-/

namespace CodeNav

theorem CodeLine.find?_numberedFrom (n : Int) (ts : List Text) (i : Nat) :
    (numberedFrom n ts).find? (·.number = n + i) = ts[i]?.map (⟨n + i, ·⟩) := by
  induction ts generalizing n i with
  | nil => rfl
  | cons t ts ih =>
    unfold numberedFrom
    cases i with
    | zero => simp
    | succ i =>
      have hnext : n + ((i + 1 : Nat) : Int) = (n + 1) + i := by omega
      have hfirst : n ≠ n + 1 + i := by omega
      rw [hnext, List.getElem?_cons_succ, ← ih (n + 1) i]
      exact List.find?_cons_of_neg (by simpa using hfirst)

theorem Document.line?_ofText {text line : Text} {i : Nat} {number : Int}
    (hline : text.lines[i]? = some line) (hnumber : number = i + 1) (url snapshot : Text) :
    (ofText text url snapshot).line? number = some ⟨number, line⟩ := by
  have hfound := CodeLine.find?_numberedFrom 1 text.lines i
  rwa [hline, Option.map_some, Int.add_comm 1, ← hnumber] at hfound

theorem Text.unifyLineEnds_of_not_mem {t : Text} (h : '\r' ∉ t) : unifyLineEnds t = t := by
  induction t with
  | nil => rfl
  | cons c t ih =>
    obtain ⟨hc, ht⟩ := not_or.mp (mt List.mem_cons.mpr h)
    rw [unifyLineEnds, ih ht]
    · exact fun _ heq _ => hc heq.symm
    · exact fun heq => hc heq.symm

theorem Files.read_of_not_mem {files : Files} {p : FilePath} {bytes : List UInt8} {t : Text}
    (hfile : files p = .file bytes) (ht : Utf8.decode bytes = .ok t) (hreturn : '\r' ∉ t) :
    files.read p = .ok t := by
  simp only [read, hfile, ht, Text.unifyLineEnds_of_not_mem hreturn]

namespace Engine

/-- The only reason that an answer gives. -/
theorem resolveReference_diagnostic (e : Engine) (req : Request) (r : Reference) {d : Text}
    (h : (e.resolveReference req r).diagnostic = some d) : d = multipleDefinitions := by
  cases r with
  | internalCall method =>
    simp only [resolveReference, resolveInternalCall] at h
    split at h
    · cases h
    · exact (Option.some.inj h).symm
    · split at h <;> cases h
  | variableUse name =>
    simp only [resolveReference, resolveVariable] at h
    split at h
    · cases h
    · split at h <;> cases h
  | externalCall receiver method =>
    simp only [resolveReference, resolveExternalCall] at h
    split at h <;> cases h
  | resource subkind name =>
    simp only [resolveReference, resolveResource] at h
    split at h
    · cases h
    · split at h <;> cases h
  | importLine | symbol | primitive | unclassified => cases h

end Engine

/-- The page does not change while a call of the remote side is under way. -/
structure Remote.Still (x : Remote) : Prop where
  lookUp : ∀ url, (x.lookUp url).change = none
  fetch : ∀ url, (x.fetch url).change = none

theorem GitHub.remote_still (web : Web) : (remote web).Still := by
  refine ⟨fun url => ?_, fun url => ?_⟩
  · show (GitHub.lookUp web url).change = none
    unfold GitHub.lookUp
    dsimp only
    split
    · rfl
    · rfl
    · split <;> rfl
  · show (GitHub.fetch web url).change = none
    unfold GitHub.fetch
    dsimp only
    split <;> rfl

namespace Navigator

theorem Stage.andThen_navigator {α β : Type} {n : Navigator} {s : Stage α}
    {next : Navigator → α → Stage β} (hs : s.navigator = n)
    (hnext : ∀ a, (next n a).navigator = n) : (s.andThen next).navigator = n := by
  unfold Stage.andThen
  cases s.result with
  | error e => exact hs
  | ok a =>
    rw [← hs] at hnext ⊢
    exact hnext a

theorem call_navigator {α : Type} (n : Navigator) (c : RemoteCall) {r : Reply α}
    (h : r.change = none) : (n.call c r).navigator = n := by
  simp only [call, h, Option.elim]

variable {x : Remote}

theorem pursue_navigator (hx : x.Still) (n : Navigator) (e : Engine) (req : Request) :
    (n.pursue (some x) e req).navigator = n := by
  refine Stage.andThen_navigator (Stage.andThen_navigator rfl fun r => ?_) fun r => ?_
  · unfold followRefinement
    split
    · next f _ _ hremote =>
      obtain rfl := Option.some.inj hremote
      split
      · refine Stage.andThen_navigator (call_navigator n _ (hx.fetch _)) fun a => ?_
        split <;> rfl
      · rfl
    · rfl
  · unfold validate
    split
    · next url _ _ hremote =>
      obtain rfl := Option.some.inj hremote
      split
      · refine Stage.andThen_navigator (call_navigator n _ (hx.lookUp _)) fun a => ?_
        dsimp only
        split <;> rfl
      · rfl
    · rfl

theorem EndsAs.diagnostic {r a : Resolution} (h : EndsAs r a) : a.diagnostic = r.diagnostic := by
  obtain ⟨b, hb, ha⟩ := h
  have hkept : b.diagnostic = r.diagnostic := by
    rcases hb with rfl | ⟨t, rfl⟩
    · rfl
    · exact (Resolution.refine_sameFile r t).diagnostic.symm
  rcases ha with rfl | rfl <;> exact hkept

def answerAt (n : Navigator) (web : Web) :
    Option TokenContext → Except NavigationError (Option Resolution)
  | none => .ok none
  | some c => (n.navigate (some (GitHub.remote web)) (n.tag (Request.ofContext c))).result

/-- On a page that has an engine every click is answered, whatever the web answers, and what comes
of a click on a token is what the engine says of it. -/
theorem answerAt_ends {s : Settings} {d : Document} {n : Navigator}
    (hactive : (idle s [] false).activate d = .ok n) (hengine : n.engine.isSome) (web : Web)
    (c : Option TokenContext) :
    ∃ r, n.answerAt web c = .ok r ∧ ∀ a, r = some a → ∃ e t, n.engine = some e ∧ c = some t ∧
      EndsAs (e.resolve (n.tag (Request.ofContext t))) a := by
  cases c with
  | none => exact ⟨none, rfl, fun _ h => by cases h⟩
  | some c =>
    obtain ⟨e, he⟩ := Option.isSome_iff_exists.mp hengine
    -- The page has an engine, so the kinds of resources could be found and can be found again.
    have hready : n.Ready :=
      ((change_becomes (c := .activate d) hactive).sound (idle_sound s [] false)).ready he
    obtain ⟨e', hfor, hn⟩ := activate_eq_ok hactive
    obtain rfl : e' = some e := by rwa [hn] at he
    obtain ⟨hview, hopen⟩ := engineFor_eq_ok_some hfor
    let req := n.tag (Request.ofContext c)
    have hyields : (n.pursue (some (GitHub.remote web)) e req).Yields (EndsAs (e.resolve req)) :=
      pursue_yields hready fun x hx => by
        obtain rfl := Option.some.inj hx
        exact Engine.regularFor_remote hview hopen web req
    obtain ⟨a, ha, hends⟩ := hyields
    have hshown : n.activeSnapshot = some e.document.snapshot := by
      rw [activeSnapshot, he, Option.map_some]
    have htag : ∀ t, req.snapshot = some t → t = e.document.snapshot := fun t ht =>
      Option.some.inj (ht.symm.trans hshown)
    have hcurrent := (navigate_of_current he htag ha).2
    -- The page is the same when the answer comes, so it is handed on.
    rw [pursue_navigator (GitHub.remote_still web), if_pos hshown] at hcurrent
    refine ⟨some a, hcurrent.1, fun b hb => ⟨e, c, he, rfl, ?_⟩⟩
    obtain rfl := Option.some.inj hb
    exact hends

/-- The only reason that such an answer gives. -/
theorem answerAt_eq_ok {s : Settings} {d : Document} {n : Navigator}
    (hactive : (idle s [] false).activate d = .ok n) (hengine : n.engine.isSome) (web : Web)
    (c : Option TokenContext) :
    ∃ r, n.answerAt web c = .ok r ∧ ∀ a reason, r = some a → a.diagnostic = some reason →
      reason = Engine.multipleDefinitions := by
  obtain ⟨r, hr, hends⟩ := answerAt_ends hactive hengine web c
  refine ⟨r, hr, fun a reason ha hreason => ?_⟩
  obtain ⟨e, t, -, -, hends⟩ := hends a ha
  exact e.resolveReference_diagnostic _ _ (hends.diagnostic.symm.trans hreason)

end Navigator

def ServiceTarget.shown (t : ServiceTarget) : Text :=
  match t.url, t.diagnostic with
  | some url, _ => if t.newTab then url ++ " (new tab)" else url
  | none, some reason => "not clickable: " ++ reason
  | none, none => "not clickable"

theorem Resolution.line_eq_shown {r : Option Resolution}
    (h : ∀ a, r = some a → a.diagnostic ≠ some []) : line r = (Service.targetOf r).shown := by
  cases r with
  | none => rfl
  | some a =>
    obtain ⟨⟨url, newTab⟩, _, _, diagnostic, _, _⟩ := a
    cases url with
    | some url => cases newTab <;> simp [line, Service.targetOf, ServiceTarget.shown]
    | none =>
      cases diagnostic with
      | none => rfl
      | some reason =>
        cases reason with
        -- An empty reason would be shown by the service and left out by the command.
        | nil => exact absurd rfl (h _ rfl)
        | cons c cs => rfl

namespace Service

/-- Two queries for one click on one document are answered alike. -/
theorem resolve_congr {s : Settings} {web : Web} {q p : Query} (hcontext : q.context = p.context)
    (hdocument : q.document = p.document) : resolve s web q = resolve s web p := by
  simp only [resolve, resolveWith, hcontext, hdocument]

theorem resolve_answer {s : Settings} {web : Web} {q : Query} {c : Option TokenContext}
    {n : Navigator} (hcontext : q.context = .ok c)
    (hactive : (Navigator.idle s [] false).activate q.document = .ok n)
    (hengine : n.engine.isSome) {r : Option Resolution} (hr : n.answerAt web c = .ok r) :
    (resolve s web q).answer = .resolved (targetOf r) := by
  cases c with
  | none =>
    -- A click beside every token is answered before the document is opened.
    obtain rfl := Except.ok.inj hr
    simp only [resolve, resolveWith, hcontext]
    rfl
  | some c =>
    have hactive : Navigator.activate { settings := s, hasSink := false } q.document = .ok n :=
      hactive
    have hshown : n.engine.isNone = false := by simpa using hengine
    have hanswer : (n.navigate (some (GitHub.remote web))
        (n.tag (Request.ofContext c))).result = .ok r := hr
    simp [resolve, resolveWith, hcontext, hactive, hshown, hanswer]

end Service

namespace Command

theorem click_result (n : Navigator) (web : Web) (line : CodeLine) (column : Int) :
    (click n web line column).result =
      ((n.answerAt web (TokenContext.atColumn? line.text (column - 1) none
        (some line.number))).map Resolution.line).mapError .navigation := by
  unfold click
  split
  · next h => rw [h]; rfl
  · next c h => rw [h]; rfl

theorem onDocument_result {o : ResolveOptions} {s : Settings} {web : Web} {d : Document}
    {line : CodeLine} {n : Navigator} (hline : d.line? o.line = some line)
    (hactive : (Navigator.idle s [] false).activate d = .ok n) (hengine : n.engine.isSome) :
    (onDocument o s web d).result = (click n web line o.column).result := by
  have hactive : Navigator.activate { settings := s, hasSink := false } d = .ok n := hactive
  have hshown : n.engine.isNone = false := by simpa using hengine
  simp [onDocument, hline, hactive, hshown]

end Command

/-- The query for the click that the options of the command name. -/
def ResolveOptions.byColumn (o : ResolveOptions) (text : Text) : Query where
  url := o.url
  text := text
  lineNumber := o.line
  column := some (o.column - 1)

/-- The query for a click on a token of that line, where a column does not count. -/
def ResolveOptions.byToken (o : ResolveOptions) (text line : Text) (index : Nat)
    (column : Option Int) : Query where
  url := o.url
  text := text
  lineNumber := o.line
  column := column
  siblings := some (Token.ofLine line)
  index := some index

namespace ResolveOptions

variable {o : ResolveOptions} {text line : Text} {i : Nat}

theorem byColumn_context (hline : text.lines[i]? = some line) (hnumber : o.line = i + 1) :
    (o.byColumn text).context =
      .ok (TokenContext.atColumn? line (o.column - 1) none (some o.line)) := by
  simp only [Query.context, byColumn, Query.document, Document.line?_ofText hline hnumber]

theorem byToken_context {before after : List Text} {token : Text}
    (htokens : Token.ofLine line = before ++ token :: after) (column : Option Int) :
    (o.byToken text line before.length column).context =
      .ok (some ⟨before, token, after, none, some o.line⟩) := by
  simp only [Query.context, byToken, htokens, TokenContext.ofSiblings?_append]

end ResolveOptions

namespace Command

section

variable {y : Platform} {x : Surroundings} {config : Text} {o : ResolveOptions} {p q : FilePath}
  {s : Settings}

theorem onFile_of_read {t : Text} (hread : x.files.read q = .ok t) :
    onFile x o s q = onDocument o (settingsFor o s) x.web (.ofText t o.url []) := by
  simp only [onFile, hread]

theorem resolveOn_of_settings (hconfig : y.path config = .ok p)
    (hsettings : Settings.loadWith y.yaml x.files x.timeout p = .ok s) :
    resolveOn y x config o =
      ((y.path o.path).mapError StartError.source).map (onFile x o s ·) := by
  simp only [resolveOn, hconfig, Except.mapError, bind, Except.bind, hsettings, pure, Except.pure]
  cases y.path o.path <;> rfl

/-- With settings and a source the command clicks on the document of the source. -/
theorem resolveOn_of_source {t : Text} (hconfig : y.path config = .ok p)
    (hsettings : Settings.loadWith y.yaml x.files x.timeout p = .ok s)
    (hpath : y.path o.path = .ok q) (hread : x.files.read q = .ok t) :
    resolveOn y x config o = .ok (onDocument o (settingsFor o s) x.web (.ofText t o.url [])) := by
  rw [resolveOn_of_settings hconfig hsettings, hpath, ← onFile_of_read hread]
  rfl

theorem resolveOn_of_settings_error {e : SettingsError} (hconfig : y.path config = .ok p)
    (hsettings : Settings.loadWith y.yaml x.files x.timeout p = .error e) :
    resolveOn y x config o = .ok { result := .error (.settings e) } := by
  simp only [resolveOn, hconfig, Except.mapError, bind, Except.bind, hsettings, pure, Except.pure]

/-- Where both paths are as they are written, the homes do not count. -/
theorem resolveOn_eq_resolve (hyaml : y.yaml = Yaml.Value.ofText)
    (hconfig : y.path config = .ok (.ofText config))
    (hpath : y.path o.path = .ok (.ofText o.path)) :
    resolveOn y x config o = .ok (resolve x config o) := by
  unfold resolve Settings.load
  rw [← hyaml]
  cases hsettings : Settings.loadWith y.yaml x.files x.timeout (.ofText config) with
  | error e => exact resolveOn_of_settings_error hconfig hsettings
  | ok s =>
    rw [resolveOn_of_settings hconfig hsettings, hpath]
    rfl

end

/-- What the command prints is what the service answers to the same click, be it named by its column
or, where it is on a token, by the tokens of the line. -/
theorem output_eq_answer_shown {y : Platform} {x : Surroundings} {config : Text}
    {o : ResolveOptions} {p q : FilePath} {s : Settings} {bytes : List UInt8} {t line : Text}
    {i : Nat} {n : Navigator} (hconfig : y.path config = .ok p)
    (hsettings : Settings.loadWith y.yaml x.files x.timeout p = .ok s)
    (hpath : y.path o.path = .ok q) (hfile : x.files q = .file bytes)
    (ht : Utf8.decode bytes = .ok t) (hreturn : '\r' ∉ t)
    (hactive : (Navigator.idle (settingsFor o s) [] false).activate (.ofText t o.url []) = .ok n)
    (hengine : n.engine.isSome) (hline : t.lines[i]? = some line) (hnumber : o.line = i + 1) :
    ∃ target : ServiceTarget,
      output (resolveOn y x config o) = target.shown ++ ['\n'] ∧
      (Service.resolve (settingsFor o s) x.web (o.byColumn t)).answer = .resolved target ∧
      ∀ before token after, Token.ofLine line = before ++ token :: after → ¬Text.isBlank token →
        before.flatten.length ≤ o.column - 1 →
        o.column - 1 < before.flatten.length + token.length →
        ∀ column, Service.resolve (settingsFor o s) x.web
            (o.byToken t line before.length column) =
          Service.resolve (settingsFor o s) x.web (o.byColumn t) := by
  obtain ⟨r, hr, hreason⟩ := Navigator.answerAt_eq_ok hactive hengine x.web
    (TokenContext.atColumn? line (o.column - 1) none (some o.line))
  have hcontext := ResolveOptions.byColumn_context hline hnumber
  have hfound := Document.line?_ofText hline hnumber o.url []
  refine ⟨Service.targetOf r, ?_, Service.resolve_answer hcontext hactive hengine hr, ?_⟩
  · have hread := Files.read_of_not_mem hfile ht hreturn
    have hresult : (onDocument o (settingsFor o s) x.web (.ofText t o.url [])).result =
        .ok (Resolution.line r) := by
      rw [onDocument_result hfound hactive hengine, click_result, hr]
      rfl
    have hshown := Resolution.line_eq_shown fun a ha hempty =>
      absurd (hreason a [] ha hempty) (by decide)
    rw [resolveOn_of_source hconfig hsettings hpath hread, output, CommandRun.output, hresult,
      ← hshown]
    rfl
  · intro before token after htokens hblank hstart hend column
    refine Service.resolve_congr ?_ rfl
    rw [hcontext, ResolveOptions.byToken_context htokens,
      TokenContext.atColumn?_eq_ofSiblings? hblank htokens hstart hend, htokens,
      TokenContext.ofSiblings?_append]

def layoutText : Text := "package p\n\nval home = R.layout.home\n"

def layoutSurroundings : Surroundings where
  files p := if p = .ofText "/root/Home.kt" then .file (layoutText.map (·.toUInt8)) else .missing
  web _ := .response (some 200) []

def rootPlatform : Platform where
  yaml := Yaml.Value.ofText
  home? user := if user.isEmpty then some "/root" else none

def onLayout : ResolveOptions where
  path := "~/Home.kt"
  url := "https://github.com/o/r/blob/dev/app/src/main/java/p/Home.kt"
  line := 3
  column := 21

theorem output_eq_answer_shown_layout :
    let url := "https://github.com/o/r/blob/dev/app/src/main/res/layout/home.xml".toList
    let byColumn := Service.resolve {} layoutSurroundings.web (onLayout.byColumn layoutText)
    output (resolveOn rootPlatform layoutSurroundings "." onLayout) = url ++ " (new tab)\n" ∧
      byColumn.answer = .resolved { url := some url, newTab := true } ∧
      Service.resolve {} layoutSurroundings.web
        (onLayout.byToken layoutText "val home = R.layout.home" 8 none) = byColumn := by
  intro url byColumn
  let page := Document.ofText layoutText onLayout.url []
  let line : Text := "val home = R.layout.home"
  let before := ["val", " ", "home", " ", "=", " ", "R", ".layout"].map String.toList
  have hconfig : rootPlatform.path "." = .ok ⟨[], []⟩ := by decide +kernel
  have hsettings : Settings.loadWith rootPlatform.yaml layoutSurroundings.files
      layoutSurroundings.timeout ⟨[], []⟩ = .ok {} := rfl
  have hpath : rootPlatform.path onLayout.path = .ok (.ofText "/root/Home.kt") := by decide +kernel
  have htext : Utf8.decode (layoutText.map (·.toUInt8)) = .ok layoutText := by decide +kernel
  have hview : Url.isFileView onLayout.url := by decide +kernel
  have hlanguage : Language.ofUrl? onLayout.url = some .kotlin := by decide +kernel
  have hactive : (Navigator.idle (settingsFor onLayout {}) [] false).activate page = .ok
      { hasSink := false, engine := some ⟨page, .kotlin, [.layout, .menu, .string], {}⟩ } :=
    Navigator.activate_of_isFileView _ rfl rfl hview hlanguage
  have hline : layoutText.lines[2]? = some line := by decide +kernel
  have htokens : Token.ofLine line = before ++ ".home".toList :: [] := by decide +kernel
  have hanswered : byColumn.answer = .resolved { url := some url, newTab := true } := by
    decide +kernel
  obtain ⟨target, houtput, htarget, hsame⟩ := output_eq_answer_shown hconfig hsettings hpath rfl
    htext (by decide) hactive rfl hline rfl
  obtain rfl : target = { url := some url, newTab := true } :=
    ServiceAnswer.resolved.inj (htarget.symm.trans hanswered)
  exact ⟨houtput, hanswered, hsame _ _ _ htokens (by decide) (by decide) (by decide) none⟩

end Command

end CodeNav
