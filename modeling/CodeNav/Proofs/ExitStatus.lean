import CodeNav.Proofs.EntryPoints
import CodeNav.Proofs.LinkLines
import CodeNav.Proofs.SettingsFiles

namespace CodeNav

theorem Catalog.exists_foldlM_take (enabled : Option (List Text))
    (kinds : List (Text × ResourceFeature)) (f : Found) :
    ∃ found, kinds.foldlM (fun f (name, feature) => take enabled f name (some feature)) f =
      .ok found := by
  induction kinds generalizing f with
  | nil => exact ⟨f, rfl⟩
  | cons kind kinds ih =>
    have hstep : ∃ next, take enabled f kind.1 (some kind.2) = .ok next := by
      unfold take
      split
      · exact ⟨_, rfl⟩
      · exact ⟨f, rfl⟩
    obtain ⟨next, hnext⟩ := hstep
    rw [List.foldlM_cons]
    dsimp only
    rw [hnext]
    exact ih next

/-- Without extensions only the enabled names can be at fault. -/
theorem Catalog.isRefusal_of_features {names : Option (List Text)} {e : CatalogError}
    (h : features [] names = .error e) : (NavigationError.catalog e).isRefusal := by
  obtain ⟨found, hfound⟩ :=
    exists_foldlM_take (names.map (·.map Text.lower)) ResourceFeature.builtIn {}
  have hgather : gather [] (names.map (·.map Text.lower)) = .ok found := by
    unfold gather
    rw [hfound]
    rfl
  rw [features_eq, hgather] at h
  have h : check (names.map (·.map Text.lower)) found = .error e := h
  unfold check checkMarkers at h
  split at h
  · obtain rfl := Except.error.inj h
    rfl
  · split at h
    · obtain rfl := Except.error.inj h
      rfl
    · cases h

theorem Navigator.isRefusal_of_activate {s : Settings} {d : Document} {e : CatalogError}
    (h : (idle s [] false).activate d = .error e) : (NavigationError.catalog e).isRefusal := by
  unfold activate engineFor Engine.open? at h
  split at h
  · split at h
    · cases h
    · next l hl =>
      cases hfeatures : Catalog.features [] s.enabled with
      | error c =>
        have hsame : c = e := by simpa [idle, hfeatures, Except.map] using h
        exact hsame ▸ Catalog.isRefusal_of_features hfeatures
      | ok fs => simp [idle, hfeatures, Except.map] at h
  · cases h

theorem CommandError.isSome_report?_settings {e : SettingsError} :
    (settings e).report?.isSome ↔ e.IsRefusal := by
  cases e with
  | document fileName f =>
    cases f with
    | malformed => exact iff_of_true rfl (.malformed fileName)
    | numberTooLong | noDigits | other => exact iff_of_false Bool.false_ne_true fun h => nomatch h
  | noMapping => exact iff_of_true rfl .noMapping
  | unreadable | tooManyDigits | tooLong =>
    exact iff_of_false Bool.false_ne_true fun h => nomatch h

namespace CommandRun

variable {r : CommandRun}

theorem isSome_exitCode?_iff :
    r.exitCode?.isSome ↔ ∀ e, r.result = .error e → e.report?.isSome := by
  unfold exitCode?
  cases r.result with
  | ok line => exact iff_of_true rfl fun _ h => nomatch h
  | error e =>
    rw [Option.isSome_map]
    exact ⟨fun h _ he => Except.error.inj he ▸ h, fun h => h e rfl⟩

end CommandRun

/-- The command can read what stands at the path of a source, or reports that it cannot. -/
def FileState.IsReported : FileState → Prop
  | .missing | .file _ => True
  | .blocked | .directory => False

namespace Resolution

theorem feed_not_mem_line {r : Option Resolution}
    (hurl : ∀ a url, r = some a → a.target.url = some url → '\n' ∉ url)
    (hreason : ∀ a reason, r = some a → a.diagnostic = some reason →
      reason = Engine.multipleDefinitions) : '\n' ∉ line r := by
  have hplain : '\n' ∉ "not clickable".toList := by decide
  cases r with
  | none => exact hplain
  | some a =>
    unfold line
    dsimp only [Option.bind_some]
    cases htarget : a.target.url with
    | some url =>
      have hfile := hurl a url rfl htarget
      dsimp only
      split
      · simp [hfile]
      · simpa using hfile
    | none =>
      cases hdiagnostic : a.diagnostic with
      | none => exact hplain
      | some reason =>
        obtain rfl := hreason a reason rfl hdiagnostic
        have hwhole : '\n' ∉ "not clickable: ".toList ++ Engine.multipleDefinitions := by decide
        exact hwhole

end Resolution

namespace Command

variable {x : Surroundings} {config : Text} {o : ResolveOptions} {s : Settings}

/-- A token of a line that is clicked holds no line feed. -/
theorem onLine_of_atColumn? {t : Text} {line : CodeLine} (hline : line ∈ CodeLine.ofText t)
    {column : Int} {c : TokenContext}
    (hc : TokenContext.atColumn? line.text column none (some line.number) = some c)
    (n : Navigator) : (n.tag (Request.ofContext c)).OnLine := by
  intro hfeed
  obtain ⟨pre, post, hlines, -⟩ := CodeLine.exists_of_mem_numberedFrom hline
  have hmem : line.text ∈ t.lines := by
    rw [hlines]
    simp
  have htoken : '\n' ∈ c.lineText :=
    List.mem_flatten.mpr ⟨c.token, by simp [TokenContext.siblings], hfeed⟩
  rw [TokenContext.lineText_of_atColumn? hc] at htoken
  exact absurd (Text.not_isLineEnd_of_mem_lines hmem htoken) (by decide)

/-- A click on a page that has an engine is answered in a line. -/
theorem click_ends {n : Navigator} {t : Text} {line : CodeLine}
    (hactive : (Navigator.idle s [] false).activate (.ofText t o.url []) = .ok n)
    (hengine : n.engine.isSome) (hline : line ∈ CodeLine.ofText t) (web : Web) (column : Int) :
    ∃ shown, (click n web line column).result = .ok shown ∧
      ('\n' ∉ o.url → '\n' ∉ s.rootSegment → '\n' ∉ shown) := by
  let clicked := TokenContext.atColumn? line.text (column - 1) none (some line.number)
  obtain ⟨r, hr, hends⟩ := Navigator.answerAt_ends hactive hengine web clicked
  refine ⟨Resolution.line r, ?_, fun hurl hroot => ?_⟩
  · rw [click_result, hr]
    rfl
  refine Resolution.feed_not_mem_line (fun a url ha htarget => ?_) fun a reason ha hreason => ?_
  · obtain ⟨e, c, he, hc, hends⟩ := hends a ha
    obtain ⟨e', hfor, hn⟩ := Navigator.activate_eq_ok hactive
    obtain rfl : e' = some e := by rwa [hn] at he
    obtain ⟨hdocument, hsettings, -, hfeatures⟩ :=
      Navigator.open?_eq_ok_some (Navigator.engineFor_eq_ok_some hfor).2
    have hpage : '\n' ∉ e.document.url := by rwa [hdocument]
    have hsegment : '\n' ∉ e.settings.rootSegment := by rwa [hsettings]
    have hkinds : ∀ f ∈ e.features, f.KeepsLine := fun f hf => by
      obtain ⟨name, hbuiltIn⟩ := Catalog.mem_builtIn_of_features hfeatures hf
      exact ResourceFeature.keepsLine_builtIn hbuiltIn
    refine hends.feed_not_mem_url (fun url htarget => ?_) url htarget
    exact e.feed_not_mem_url (onLine_of_atColumn? hline hc n) hpage hsegment hkinds htarget
  · obtain ⟨e, c, -, -, hends⟩ := hends a ha
    exact e.resolveReference_diagnostic _ _ (hends.diagnostic.symm.trans hreason)

/-- With a text to look at the command prints a line, or reports why not. -/
theorem onDocument_ends (o : ResolveOptions) (s : Settings) (web : Web) (t : Text) :
    (∃ line, (onDocument o s web (.ofText t o.url [])).result = .ok line ∧
        ('\n' ∉ o.url → '\n' ∉ s.rootSegment → '\n' ∉ line)) ∨
      ∃ e, (onDocument o s web (.ofText t o.url [])).result = .error e ∧ e.report?.isSome := by
  cases hline : (Document.ofText t o.url []).line? o.line with
  | none => exact .inr ⟨.lineOutside o.line o.path, by rw [onDocument, hline], rfl⟩
  | some line =>
    cases hactive : (Navigator.idle s [] false).activate (.ofText t o.url []) with
    | error e =>
      have hrefusal := Navigator.isRefusal_of_activate hactive
      refine .inr ⟨.navigation (.catalog e), ?_, ?_⟩
      · have hactive : Navigator.activate { settings := s, hasSink := false }
            (.ofText t o.url []) = .error e := hactive
        simp only [onDocument, hline, hactive]
      · rw [CommandError.report?, if_pos hrefusal]
        rfl
    | ok n =>
      by_cases hengine : n.engine.isSome
      · rw [onDocument_result hline hactive hengine]
        exact .inl (click_ends hactive hengine (List.mem_of_find?_eq_some hline) web o.column)
      · refine .inr ⟨.unsupported o.url, ?_, rfl⟩
        have hactive : Navigator.activate { settings := s, hasSink := false }
            (.ofText t o.url []) = .ok n := hactive
        have hnone : n.engine.isNone := by simpa using hengine
        simp only [onDocument, hline, hactive, hnone, if_true]

section OnFile

variable {q : FilePath}

theorem onFile_of_read_error {e : FileError} (hread : x.files.read q = .error e) :
    onFile x o s q = { result := .error (.source e) } := by
  simp only [onFile, hread]

/-- With settings the source decides whether the command ends with a status. -/
theorem isSome_exitCode?_onFile :
    (onFile x o s q).exitCode?.isSome ↔ (x.files q).IsReported := by
  have hfailed {e : FileError} (hread : x.files.read q = .error e) :
      (onFile x o s q).exitCode?.isSome ↔ (CommandError.source e).report?.isSome := by
    rw [onFile_of_read_error hread, CommandRun.exitCode?, Option.isSome_map]
  cases hstate : x.files q with
  | missing => exact (hfailed (by rw [Files.read, hstate])).trans (iff_of_true rfl trivial)
  | blocked | directory =>
    refine (hfailed (by rw [Files.read, hstate])).trans ?_
    exact iff_of_false Bool.false_ne_true id
  | file bytes =>
    refine iff_of_true ?_ trivial
    cases hread : x.files.read q with
    | error f =>
      obtain ⟨cause, rfl⟩ : ∃ cause, f = .encoding cause := by
        rw [Files.read, hstate] at hread
        dsimp only at hread
        split at hread
        · cases hread
        · exact ⟨_, (Except.error.inj hread).symm⟩
      exact (hfailed hread).mpr rfl
    | ok t =>
      rw [onFile_of_read hread, CommandRun.isSome_exitCode?_iff]
      intro e he
      rcases onDocument_ends o (settingsFor o s) x.web t with ⟨line, hline, -⟩ | ⟨e', he', hreport⟩
      · cases hline.symm.trans he
      · exact Except.error.inj (he'.symm.trans he) ▸ hreport

end OnFile

end Command

/-- The command can read what the path of a source leads to, or reports that it cannot. -/
def Files.Reports (files : Files) : Except PathError FilePath → Prop
  | .ok q => (files q).IsReported
  | .error e => e = .nullCharacter

namespace Command

variable {y : Platform} {x : Surroundings} {config : Text} {o : ResolveOptions} {p : FilePath}

/-- What becomes of the settings decides whether the command ends with a status, and if there are
any then the source does. -/
theorem isSome_exitCode?_iff (hconfig : y.path config = .ok p) :
    (exitCode? (resolveOn y x config o)).isSome ↔
      (∀ e, Settings.loadWith y.yaml x.files x.timeout p = .error e → e.IsRefusal) ∧
        ((∃ s, Settings.loadWith y.yaml x.files x.timeout p = .ok s) →
          x.files.Reports (y.path o.path)) := by
  cases hsettings : Settings.loadWith y.yaml x.files x.timeout p with
  | error e =>
    rw [resolveOn_of_settings_error hconfig hsettings, exitCode?, CommandRun.exitCode?,
      Option.isSome_map, CommandError.isSome_report?_settings]
    exact ⟨fun h => ⟨fun _ he => Except.error.inj he ▸ h, fun ⟨_, hs⟩ => nomatch hs⟩,
      fun h => h.1 e rfl⟩
  | ok s =>
    rw [resolveOn_of_settings hconfig hsettings]
    have hsource : (exitCode? (((y.path o.path).mapError StartError.source).map
        (onFile x o s ·))).isSome ↔ x.files.Reports (y.path o.path) := by
      cases y.path o.path with
      | ok q => exact isSome_exitCode?_onFile
      | error e =>
        cases e with
        | noHome => exact iff_of_false Bool.false_ne_true nofun
        | nullCharacter => exact iff_of_true rfl rfl
    rw [hsource]
    exact ⟨fun h => ⟨fun _ he => (nomatch he), fun _ => h⟩, fun h => h.2 ⟨s, rfl⟩⟩

end Command

end CodeNav
