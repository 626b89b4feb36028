import CodeNav.Proofs.WebAddresses

/-!
Addresses of file views, read from their parts and back (`Url.fileView?_eq_some_iff`). An anchor may
stand anywhere in an address, and what stands before it shows a file itself exactly when the anchor
stands behind the first character of the path (`Url.isFileView_stripAnchor_iff`). The navigator
looks at the whole address for the view and at the part before the anchor for the language, so it
also opens pages that show no file (`Navigator.activate_opens_iff`).
-/

namespace CodeNav

namespace Url

/-- What the addresses of the files of a repository start with, for one way to name the host. -/
def viewFront (scheme host owner repo : Text) : Text :=
  origin scheme host ++ owner ++ "/" ++ repo ++ "/blob/"

/-- The address is made of the parts of the view, and goes on at most in another line. -/
structure Shows (url : Text) (v : FileView) : Prop where
  owner_segment : IsSegment v.owner
  repo_segment : IsSegment v.repo
  rest_ne_nil : v.rest ≠ []
  line : '\n' ∉ v.rest
  eq : ∃ s ∈ webSchemes, ∃ h ∈ pageHosts, ∃ more, more.head?.all (· = '\n') ∧
    url = viewFront s h v.owner v.repo ++ (v.rest ++ more)

variable {owner repo : Text}

theorem viewFront_append (s h owner repo t : Text) : viewFront s h owner repo ++ t =
    s ++ ("://" ++ (h ++ ("/" ++ (owner ++ '/' :: (repo ++ '/' :: ("blob/" ++ t)))))) := by
  simp [viewFront, origin]

theorem fileView?_viewFront {s h : Text} (hs : s ∈ webSchemes) (hh : h ∈ pageHosts)
    (howner : IsSegment owner) (hrepo : IsSegment repo) (t : Text) :
    fileView? (viewFront s h owner repo ++ t) =
      let line := t.takeWhile (· != '\n')
      if line.isEmpty then none else some ⟨owner, repo, line⟩ := by
  refine fileView?_of_host howner hrepo ?_
  rw [viewFront_append]
  simp only [webSchemes, pageHosts, List.mem_cons, List.not_mem_nil, or_false] at hs hh
  rcases hs with rfl | rfl <;> rcases hh with rfl | rfl <;> rfl

theorem fileView?_viewFront_cons {s h : Text} (hs : s ∈ webSchemes) (hh : h ∈ pageHosts)
    (howner : IsSegment owner) (hrepo : IsSegment repo) {c : Char} (hc : c ≠ '\n') (t : Text) :
    fileView? (viewFront s h owner repo ++ c :: t) =
      some ⟨owner, repo, c :: t.takeWhile (· != '\n')⟩ := by
  rw [fileView?_viewFront hs hh howner hrepo]
  simp [hc]

theorem eq_append_of_segment? {url name rest : Text} (h : segment? url = some (name, rest)) :
    IsSegment name ∧ url = name ++ rest := by
  unfold segment? at h
  dsimp only at h
  split at h
  · cases h
  · next hne =>
    obtain ⟨rfl, rfl⟩ := Prod.mk.inj (Option.some.inj h)
    refine ⟨⟨by simpa using hne, fun hslash => ?_⟩, ?_⟩
    · simpa using List.mem_takeWhile_imp hslash
    · exact (List.prefix_iff_eq_append.mp (List.takeWhile_prefix _)).symm

theorem Shows.of_fileView? {url : Text} {v : FileView} (h : fileView? url = some v) :
    Shows url v := by
  unfold fileView? at h
  obtain ⟨scheme, hscheme, hread⟩ := Option.bind_eq_some_iff.mp h
  obtain ⟨host, hhost, hread⟩ := Option.bind_eq_some_iff.mp hread
  obtain ⟨path, hpath, hread⟩ := Option.bind_eq_some_iff.mp hread
  obtain ⟨⟨owner, path₁⟩, howner, hread⟩ := Option.bind_eq_some_iff.mp hread
  obtain ⟨path₂, hslash, hread⟩ := Option.bind_eq_some_iff.mp hread
  obtain ⟨⟨repo, path₃⟩, hrepo, hread⟩ := Option.bind_eq_some_iff.mp hread
  obtain ⟨path₄, hblob, hread⟩ := Option.bind_eq_some_iff.mp hread
  obtain ⟨s, hs, host, hhost, hurl⟩ := exists_origin_of_after? hscheme hhost hpath
  obtain ⟨hownerSegment, hpath⟩ := eq_append_of_segment? howner
  obtain ⟨hrepoSegment, hpath₂⟩ := eq_append_of_segment? hrepo
  have hpath₁ := eq_append_of_after? hslash
  have hpath₃ := eq_append_of_after? hblob
  dsimp only at hread
  split at hread
  · cases hread
  · next hne =>
    rw [← Option.some.inj hread]
    refine ⟨hownerSegment, hrepoSegment, by simpa using hne, fun hline => ?_, s, hs, host, hhost,
      path₄.dropWhile (· != '\n'), ?_, ?_⟩
    · simpa using List.mem_takeWhile_imp hline
    · have hstop := List.head?_dropWhile_not (· != '\n') path₄
      cases hmore : (path₄.dropWhile (· != '\n')).head? with
      | none => rfl
      | some c => simpa [hmore] using hstop
    · rw [List.takeWhile_append_dropWhile, hurl, hpath, hpath₁, hpath₂, hpath₃]
      simp [viewFront]

/-- An address shows exactly the file that its parts name. -/
theorem fileView?_eq_some_iff {url : Text} {v : FileView} :
    fileView? url = some v ↔ Shows url v := by
  refine ⟨Shows.of_fileView?, fun h => ?_⟩
  obtain ⟨s, hs, host, hhost, more, hmore, hurl⟩ := h.eq
  have hline : (v.rest ++ more).takeWhile (· != '\n') = v.rest := by
    rw [List.takeWhile_append_of_pos]
    · cases more with
      | nil => simp
      | cons c r => simp [show c = '\n' by simpa using hmore]
    · intro c hc
      have hne : c ≠ '\n' := fun heq => h.line (heq ▸ hc)
      simpa using hne
  rw [hurl, fileView?_viewFront hs hhost h.owner_segment h.repo_segment, hline]
  simp [h.rest_ne_nil]

/-- The anchor begins before the path of the file, or where the path would begin. -/
def AnchoredEarly (url : Text) : Prop :=
  ∃ v, fileView? url = some v ∧ ('#' ∈ v.owner ∨ '#' ∈ v.repo ∨ v.rest.head? = some '#')

theorem not_mem_viewFront {s h : Text} (hs : s ∈ webSchemes) (hh : h ∈ pageHosts)
    (howner : '#' ∉ owner) (hrepo : '#' ∉ repo) : '#' ∉ viewFront s h owner repo := by
  have hscheme := (not_mem_webSchemes hs).1
  have hhost := (not_mem_linkHosts (pageHosts_subset hh)).1
  simp [viewFront, origin, hscheme, hhost, howner, hrepo]

/-- The address of a view, with the first character of the path set apart. -/
theorem exists_viewFront_of_isFileView {url : Text} (h : isFileView url) :
    ∃ s ∈ webSchemes, ∃ host ∈ pageHosts, ∃ owner repo c path, IsSegment owner ∧ IsSegment repo ∧
      c ≠ '\n' ∧ url = viewFront s host owner repo ++ c :: path := by
  obtain ⟨v, hv⟩ := Option.isSome_iff_exists.mp h
  have hshows := Shows.of_fileView? hv
  obtain ⟨s, hs, host, hhost, more, -, heq⟩ := hshows.eq
  obtain ⟨c, rest, hrest⟩ := List.exists_cons_of_ne_nil hshows.rest_ne_nil
  refine ⟨s, hs, host, hhost, v.owner, v.repo, c, rest ++ more, hshows.owner_segment,
    hshows.repo_segment, fun hline => hshows.line (by simp [hrest, hline]), ?_⟩
  rw [heq, hrest, List.cons_append]

theorem anchoredEarly_viewFront_cons {s h : Text} (hs : s ∈ webSchemes) (hh : h ∈ pageHosts)
    (howner : IsSegment owner) (hrepo : IsSegment repo) {c : Char} (hc : c ≠ '\n') (path : Text) :
    AnchoredEarly (viewFront s h owner repo ++ c :: path) ↔
      '#' ∈ owner ∨ '#' ∈ repo ∨ c = '#' := by
  simp [AnchoredEarly, fileView?_viewFront_cons hs hh howner hrepo hc]

theorem isFileView_of_stripAnchor {url : Text} (h : isFileView (stripAnchor url)) :
    isFileView url ∧ ¬AnchoredEarly url := by
  obtain ⟨s, hs, host, hhost, owner, repo, c, path, howner, hrepo, hc, heq⟩ :=
    exists_viewFront_of_isFileView h
  -- The anchor follows on all that was read before it.
  have hurl : url = viewFront s host owner repo ++ c :: (path ++ url.dropWhile (· != '#')) := by
    calc url
        = stripAnchor url ++ url.dropWhile (· != '#') := List.takeWhile_append_dropWhile.symm
      _ = _ := by rw [heq, List.append_assoc, List.cons_append]
  have hanchor : '#' ∉ viewFront s host owner repo ++ c :: path := heq ▸ not_mem_stripAnchor url
  rw [hurl]
  refine ⟨?_, ?_⟩
  · rw [isFileView, fileView?_viewFront_cons hs hhost howner hrepo hc]
    rfl
  · rw [anchoredEarly_viewFront_cons hs hhost howner hrepo hc]
    rintro (hmem | hmem | rfl)
    · exact hanchor (by simp [viewFront, hmem])
    · exact hanchor (by simp [viewFront, hmem])
    · exact hanchor (by simp)

theorem isFileView_stripAnchor {url : Text} (h : isFileView url) (hearly : ¬AnchoredEarly url) :
    isFileView (stripAnchor url) := by
  obtain ⟨s, hs, host, hhost, owner, repo, c, path, hownerSegment, hrepoSegment, hc, rfl⟩ :=
    exists_viewFront_of_isFileView h
  rw [anchoredEarly_viewFront_cons hs hhost hownerSegment hrepoSegment hc] at hearly
  obtain ⟨howner, hrepo, hmark⟩ : '#' ∉ owner ∧ '#' ∉ repo ∧ c ≠ '#' := by
    simpa only [not_or] using hearly
  have hstrip : stripAnchor (viewFront s host owner repo ++ c :: path) =
      viewFront s host owner repo ++ c :: stripAnchor path := by
    rw [stripAnchor_append (not_mem_viewFront hs hhost howner hrepo)]
    simp [stripAnchor, Text.before, hmark]
  rw [isFileView, hstrip, fileView?_viewFront_cons hs hhost hownerSegment hrepoSegment hc]
  rfl

/-- What stands before the anchor shows a file exactly when the whole address does and the anchor
stands behind the first character of the path. -/
theorem isFileView_stripAnchor_iff {url : Text} :
    isFileView (stripAnchor url) ↔ isFileView url ∧ ¬AnchoredEarly url :=
  ⟨isFileView_of_stripAnchor, fun h => isFileView_stripAnchor h.1 h.2⟩

end Url

def Language.fileExtensions : List Text := ["kt", "kts", "java"]

theorem Language.ofExtension?_isSome_iff {x : Text} :
    (ofExtension? x).isSome ↔ x.lower ∈ fileExtensions := by
  have hmem : x.lower ∈ fileExtensions ↔
      x.lower = "kt" ∨ x.lower = "kts" ∨ x.lower = "java" := by
    simp [fileExtensions]
  rw [hmem, ofExtension?]
  split
  · next h => simp_all [or_assoc.symm]
  · split <;> simp_all

theorem Language.ofUrl?_isSome_iff {url : Text} : (ofUrl? url).isSome ↔
    ∃ x, Url.extension? (Url.stripAnchor url) = some x ∧ x.lower ∈ fileExtensions := by
  rw [Url.extension?_stripAnchor, ofUrl?]
  cases Url.extension? url with
  | none => simp
  | some x => simpa using ofExtension?_isSome_iff

namespace Navigator

/-- The page has the address of a file whose language is known, as far as the part before the anchor
says. -/
def HasKnownExtension (d : Document) : Prop :=
  ∃ x, Url.extension? (Url.stripAnchor d.url) = some x ∧ x.lower ∈ Language.fileExtensions

theorem engineFor_isSome_iff {n : Navigator} {d : Document} {e : Option Engine}
    (h : n.engineFor d = .ok e) : e.isSome ↔ Url.isFileView d.url ∧ HasKnownExtension d := by
  unfold engineFor Engine.open? at h
  rw [HasKnownExtension, ← Language.ofUrl?_isSome_iff]
  by_cases hview : Url.isFileView d.url
  · rw [if_pos hview] at h
    cases hl : Language.ofUrl? d.url with
    | none =>
      rw [hl] at h
      obtain rfl := Except.ok.inj h
      simp
    | some l =>
      simp only [hl] at h
      cases hf : Catalog.features n.extensions n.settings.enabled with
      | error c => rw [hf] at h; cases h
      | ok fs =>
        rw [hf] at h
        obtain rfl := Except.ok.inj h
        simp [hview]
  · rw [if_neg hview] at h
    obtain rfl := Except.ok.inj h
    simp [hview]

theorem engineFor_activeSnapshot {n : Navigator} {d : Document} {e : Option Engine}
    (h : n.engineFor d = .ok e) : ({ n with engine := e } : Navigator).activeSnapshot =
      if e.isSome then some d.snapshot else none := by
  cases e with
  | none => rfl
  | some e =>
    rw [activeSnapshot, Option.map_some, engineFor_document h]
    rfl

/-- A navigator that is set up in the standard way shows every page: with an engine exactly when the
whole address is one of a file view and what stands before the anchor has a known extension, and
then under the snapshot of the page. So a page has an engine exactly when what stands before the
anchor shows a file in a known language, except for the pages in known languages whose anchor begins
before the path; only their addresses are views of files with the anchor and not without. -/
theorem activate_opens_iff (hasSink : Bool) (shown : Option Engine) (d : Document) :
    ∃ n, activate { hasSink, engine := shown } d = .ok n ∧
      (n.engine.isSome ↔ Url.isFileView d.url ∧ HasKnownExtension d) ∧
      (n.activeSnapshot = if n.engine.isSome then some d.snapshot else none) ∧
      ((n.engine.isSome ↔ Url.isFileView (Url.stripAnchor d.url) ∧ HasKnownExtension d) ↔
        ¬(Url.AnchoredEarly d.url ∧ HasKnownExtension d)) ∧
      (Url.isFileView d.url = Url.isFileView (Url.stripAnchor d.url) ↔
        ¬Url.AnchoredEarly d.url) := by
  let start : Navigator := { hasSink, engine := shown }
  have hready : start.Ready := ⟨[.layout, .menu, .string], rfl⟩
  obtain ⟨e, he⟩ := hready.engineFor d
  have hopens := engineFor_isSome_iff he
  have hstrip := @Url.isFileView_stripAnchor_iff d.url
  have hearly : Url.AnchoredEarly d.url → Url.isFileView d.url := by
    rintro ⟨v, hv, -⟩
    rw [Url.isFileView, hv]
    rfl
  refine ⟨{ start with engine := e }, ?_, hopens, engineFor_activeSnapshot he, ?_, ?_⟩
  · show start.activate d = _
    rw [activate, he]
    rfl
  · show (e.isSome ↔ _) ↔ _
    rw [hopens, hstrip]
    tauto
  · rw [Bool.eq_iff_iff, hstrip]
    tauto

/-- A page of a repository that is called like a file, where the anchor goes on like the address of
a view. -/
def anchoredPage : Document := .ofText "fun main() {}\n" "https://github.com/o/app.kt#/blob/x" "now"

/-- The part before the anchor shows no file, but the page has an engine. -/
theorem activate_opens_anchored : ∃ n, activate {} anchoredPage = .ok n ∧
    n.activeSnapshot = some "now" ∧
    Url.isFileView (Url.stripAnchor anchoredPage.url) = false := by
  have hview : Url.isFileView anchoredPage.url := by decide +kernel
  have hlanguage : Language.ofUrl? anchoredPage.url = some .kotlin := by decide +kernel
  exact ⟨_, activate_of_isFileView {} rfl rfl hview hlanguage, rfl, by decide +kernel⟩

end Navigator

end CodeNav
