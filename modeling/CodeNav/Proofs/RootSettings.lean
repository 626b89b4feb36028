import CodeNav.Proofs.Answers
import CodeNav.Proofs.Markers
import CodeNav.Proofs.ResourceRoots
import CodeNav.Settings.File

/-!
Which settings files keep the links to resources on the host of the page. A root segment that is
written with slashes only counts as written, but nothing of it is left, and the empty segment is
found in front of the host. All other files are safe, whatever reads them
(`Engine.resource_origin_iff`).
-/

namespace CodeNav

theorem Text.exists_digit_ofInt (n : Int) : ∃ c ∈ ofInt n, c.isDigit := by
  have hdigits (k : Nat) : ∃ c ∈ Nat.toDigits 10 k, c.isDigit := by
    obtain ⟨c, hc⟩ := List.exists_mem_of_ne_nil _ (Nat.toDigits_ne_nil (n := k) (b := 10))
    exact ⟨c, hc, Nat.isDigit_of_mem_toDigits (by decide) (by decide) hc⟩
  cases n with
  | ofNat k => exact hdigits k
  | negSucc k =>
    obtain ⟨c, hc, hdigit⟩ := hdigits (k + 1)
    exact ⟨c, List.mem_cons_of_mem _ hc, hdigit⟩

/-- A number is printed with a letter or a point. -/
theorem Binary64.exists_mem_text (x : Float) : ∃ c ∈ text x, c = 'n' ∨ c = '.' ∨ c = 'e' := by
  unfold text
  dsimp only
  split
  · exact ⟨'n', by simp, .inl rfl⟩
  split
  · exact ⟨'n', by simp, .inl rfl⟩
  split
  · exact ⟨'.', by simp, .inr (.inl rfl)⟩
  split
  · exact ⟨'.', by simp, .inr (.inl rfl)⟩
  split
  · exact ⟨'.', by simp, .inr (.inl rfl)⟩
  · exact ⟨'e', by simp, .inr (.inr rfl)⟩

namespace Settings

open Yaml (Value)

/-- A text that is written, but with slashes only. -/
def IsSlashes (t : Text) : Prop := t ≠ [] ∧ ∀ c ∈ t, c = '/'

/-- Only a text stands for a text of slashes. -/
theorem eq_text_of_asText? {v : Value} {t : Text} (h : asText? v = .ok (some t))
    (ht : IsSlashes t) : v = .text t := by
  have hnot {c : Char} (hc : c ∈ t) (hne : c ≠ '/') : v = .text t := absurd (ht.2 c hc) hne
  cases v with
  | text u =>
    obtain rfl := Option.some.inj (Except.ok.inj h)
    rfl
  | bool b =>
    obtain rfl := Option.some.inj (Except.ok.inj h)
    cases b with
    | true => exact hnot (c := 'T') (by decide) (by decide)
    | false => exact hnot (c := 'F') (by decide) (by decide)
  | int n =>
    rw [asText?] at h
    split at h
    · obtain rfl := Option.some.inj (Except.ok.inj h)
      obtain ⟨c, hc, hdigit⟩ := Text.exists_digit_ofInt n
      exact hnot hc fun hslash => absurd (hslash ▸ hdigit) (by decide)
    · cases h
  | float x =>
    obtain rfl := Option.some.inj (Except.ok.inj h)
    obtain ⟨c, hc, hletter⟩ := Binary64.exists_mem_text x
    exact hnot hc (by rcases hletter with rfl | rfl | rfl <;> decide)
  | null | time | list | record => cases h

/-- Nothing is left of the root segment exactly when it is given as slashes. -/
theorem trim_rootSegmentOf_eq_nil_iff {v : Value} {root : Text} (h : rootSegmentOf v = .ok root) :
    Text.trimChar '/' root = [] ↔ ∃ t, v = .text t ∧ IsSlashes t := by
  unfold rootSegmentOf at h
  cases htext : asText? v with
  | error e => rw [htext] at h; cases h
  | ok given =>
    rw [htext] at h
    rcases given with _ | _ | ⟨c, cs⟩
    -- Without a text the segment stays as it is.
    · obtain rfl := Except.ok.inj h
      refine iff_of_false (by decide) ?_
      rintro ⟨t, rfl, -⟩
      cases htext
    · obtain rfl := Except.ok.inj h
      refine iff_of_false (by decide) ?_
      rintro ⟨t, rfl, hne, -⟩
      exact hne (Option.some.inj (Except.ok.inj htext))
    · obtain rfl := Except.ok.inj h
      rw [Text.trimChar_trimChar_eq_nil_iff, Text.trimChar_eq_nil_iff]
      constructor
      · intro hall
        have hslashes : IsSlashes (c :: cs) := ⟨List.cons_ne_nil _ _, hall⟩
        exact ⟨c :: cs, eq_text_of_asText? htext hslashes, hslashes⟩
      · rintro ⟨t, rfl, -, hall⟩
        obtain rfl := Option.some.inj (Except.ok.inj htext)
        exact hall

theorem rootSegmentOf_of_ofValue {v : Value} {s : Settings} (h : ofValue v = .ok s) :
    rootSegmentOf ((value? v "resources" "root_segment").getD .null) = .ok s.rootSegment := by
  cases v with
  | null =>
    obtain rfl := Except.ok.inj h
    rfl
  | record fields =>
    obtain ⟨root, hroot, h⟩ := bind_eq_ok h
    obtain ⟨_, -, h⟩ := bind_eq_ok h
    obtain ⟨_, -, h⟩ := bind_eq_ok h
    obtain ⟨_, -, h⟩ := bind_eq_ok h
    obtain rfl := Except.ok.inj h
    exact hroot
  | bool | int | float | text | time | list => cases h

def givenRoot (read : Text → Except Yaml.Fault Value) (files : Files) (p : FilePath) : Value :=
  match files.read (filePath files p) with
  | .ok t =>
    if t.isBlank then .null
    else
      match read t with
      | .ok v => (value? v "resources" "root_segment").getD .null
      | .error _ => .null
  | .error _ => .null

variable {read : Text → Except Yaml.Fault Value} {files : Files} {timeout : Option Text}
  {p : FilePath} {s : Settings}

theorem withTimeout_rootSegment (s : Settings) (timeout : Option Text) :
    (s.withTimeout timeout).rootSegment = s.rootSegment := by
  unfold withTimeout
  split <;> rfl

/-- The root segment of settings that were read is the one that the file gives, if it gives one. -/
theorem rootSegmentOf_givenRoot (h : loadWith read files timeout p = .ok s) :
    rootSegmentOf (givenRoot read files p) = .ok s.rootSegment := by
  unfold loadWith at h
  dsimp only at h
  unfold givenRoot
  cases hfile : files.read (filePath files p) with
  | error e =>
    rw [hfile] at h
    cases e with
    | missing | blocked =>
      obtain rfl := Except.ok.inj h
      rw [withTimeout_rootSegment]
      rfl
    | directory | encoding => cases h
  | ok t =>
    rw [hfile] at h
    obtain ⟨base, hbase, h⟩ := bind_eq_ok h
    obtain rfl := Except.ok.inj h
    rw [withTimeout_rootSegment]
    unfold ofTextWith at hbase
    dsimp only
    by_cases hblank : t.isBlank
    · rw [if_pos hblank] at hbase ⊢
      obtain rfl := Except.ok.inj hbase
      rfl
    · rw [if_neg hblank] at hbase ⊢
      cases hread : read t with
      | ok v =>
        rw [hread] at hbase
        exact rootSegmentOf_of_ofValue hbase
      | error f =>
        rw [hread] at hbase
        cases hbase

end Settings

namespace Engine

/-- The path of the file that a request for a kind of resource leads to. -/
def resourcePath? (e : Engine) (req : Request) (subkind : Text) : Option Text := do
  let f ← e.feature? subkind
  return f.path (← f.name? req.token)

variable {e : Engine} {req : Request} {subkind name : Text}

theorem resourcePath?_of_url {url : Text} (hclassify : e.classify req = .resource subkind name)
    (hurl : (e.resolve req).target.url = some url) :
    ∃ path, e.resourcePath? req subkind = some path ∧
      url = resourceUrl e.document.url e.settings.rootSegment path := by
  have hleads := e.resolve_leads req
  rw [hclassify] at hleads
  generalize (e.resolve req).target = t at hleads hurl
  cases hleads with
  | nowhere => cases hurl
  | declared hr | file hr => cases hr
  | @resource f _ _ found hf hname =>
    obtain rfl := Option.some.inj hurl
    exact ⟨f.path found, by rw [resourcePath?, hf]; simp [hname], rfl⟩

/-- With settings that were read, the link to a resource has the host of the page exactly when the
settings file does not give the root segment as slashes, or the path of the resource names the host
again. -/
theorem resource_origin_iff {read : Text → Except Yaml.Fault Yaml.Value} {files : Files}
    {timeout : Option Text} {p : FilePath} {s : Settings} {scheme host url : Text}
    (hload : Settings.loadWith read files timeout p = .ok s)
    (he : e.settings.rootSegment = s.rootSegment) (hscheme : '/' ∉ scheme ∧ '#' ∉ scheme)
    (hhost : '/' ∉ host ∧ '#' ∉ host) (hpage : Url.origin scheme host <+: e.document.url)
    (hclassify : e.classify req = .resource subkind name)
    (hurl : (e.resolve req).target.url = some url) :
    Url.origin scheme host <+: url ↔
      (∀ root, Settings.givenRoot read files p = .text root → ¬Settings.IsSlashes root) ∨
        ∃ path, e.resourcePath? req subkind = some path ∧ host ++ ['/'] <+: path := by
  obtain ⟨path, hpath, rfl⟩ := resourcePath?_of_url hclassify hurl
  have horigin := Url.origin_prefix_stripAnchor hscheme.2 hhost.2 hpage
  have hslashes := Settings.trim_rootSegmentOf_eq_nil_iff (Settings.rootSegmentOf_givenRoot hload)
  rw [origin_prefix_resourceUrl_iff hscheme.1 hhost.1 horigin, he, Ne, hslashes, hpath]
  simp

def rootFiles (root : Text) : Files :=
  FileTree.files ⟨[([settingsFileName], .file
    (("resources:\n  root_segment: " ++ root ++ "\n").map (·.toUInt8)))]⟩

def layoutUrl : Text := "https://github.com/o/r/blob/dev/app/src/main/java/Main.kt"

def layoutEngine (s : Settings) : Engine where
  document := .ofText "setContentView(R.layout.home)" layoutUrl "now"
  language := .kotlin
  features := [.layout]
  settings := s

def layoutClick : Request :=
  ⟨".home", ⟨["setContentView", "(", "R", ".layout"], ".home", [")"], none, none⟩, none⟩

theorem resolve_layoutClick (s : Settings) :
    (layoutEngine s).classify layoutClick = .resource "layout" "home" ∧
      ((layoutEngine s).resolve layoutClick).target.url =
        some (resourceUrl layoutUrl s.rootSegment "res/layout/home.xml") := by
  have hn : ((layoutEngine s).features.map (·.marker)).Nodup := List.nodup_singleton _
  have hf : ResourceFeature.layout ∈ (layoutEngine s).features := List.mem_cons_self
  have hname : isWordRun "home" := by decide
  have hclassify : (layoutEngine s).classify layoutClick = .resource "layout" "home" :=
    classify_behind_marker hn hf hname rfl (by decide)
  have htarget := (resolve_resource hn hf hname rfl hclassify).2
  exact ⟨hclassify, by rw [htarget]; rfl⟩

theorem load_rootFiles {root segment : Text}
    (h : (Settings.load (rootFiles root) none ⟨[], []⟩).toOption.map (·.rootSegment) =
      some segment) :
    ∃ s, Settings.load (rootFiles root) none ⟨[], []⟩ = .ok s ∧ s.rootSegment = segment := by
  obtain ⟨s, hs, hroot⟩ := Option.map_eq_some_iff.mp h
  cases hload : Settings.load (rootFiles root) none ⟨[], []⟩ with
  | error e => rw [hload] at hs; cases hs
  | ok s' =>
    rw [hload] at hs
    obtain rfl := Option.some.inj hs
    exact ⟨s', rfl, hroot⟩

theorem resource_origin_iff_app : ∃ s,
    Settings.load (rootFiles "/app/") none ⟨[], []⟩ = .ok s ∧
      (layoutEngine s).classify layoutClick = .resource "layout" "home" ∧
      ((layoutEngine s).resolve layoutClick).target.url =
        some "https://github.com/o/r/blob/dev/app/res/layout/home.xml".toList ∧
      Url.origin "https" "github.com" <+:
        "https://github.com/o/r/blob/dev/app/res/layout/home.xml".toList := by
  obtain ⟨s, hload, hroot⟩ := @load_rootFiles "/app/" "app" (by decide +kernel)
  obtain ⟨hclassify, htarget⟩ := resolve_layoutClick s
  have hlink : resourceUrl layoutUrl "app" "res/layout/home.xml" =
      "https://github.com/o/r/blob/dev/app/res/layout/home.xml".toList := by decide +kernel
  rw [hroot, hlink] at htarget
  have hpage : Url.origin "https" "github.com" <+: layoutUrl := by decide +kernel
  have hgiven : ∀ root, Settings.givenRoot Yaml.Value.ofText (rootFiles "/app/") ⟨[], []⟩ =
      .text root → ¬Settings.IsSlashes root := by
    intro root hgiven hslashes
    have hnil := (Settings.trim_rootSegmentOf_eq_nil_iff
      (Settings.rootSegmentOf_givenRoot hload)).mpr ⟨root, hgiven, hslashes⟩
    rw [hroot] at hnil
    exact absurd hnil (by decide)
  exact ⟨s, hload, hclassify, htarget, (resource_origin_iff hload rfl (by decide) (by decide) hpage
    hclassify htarget).mpr (.inl hgiven)⟩

/-- A root segment of one slash is accepted, and the link loses the host. -/
theorem resource_origin_of_slash : ∃ s,
    Settings.load (rootFiles "\"/\"") none ⟨[], []⟩ = .ok s ∧
      Url.origin "https" "github.com" <+: (layoutEngine s).document.url ∧
      (layoutEngine s).classify layoutClick = .resource "layout" "home" ∧
      ((layoutEngine s).resolve layoutClick).target.url =
        some "https://res/layout/home.xml".toList ∧
      ¬Url.origin "https" "github.com" <+: "https://res/layout/home.xml".toList := by
  obtain ⟨s, hload, hroot⟩ := @load_rootFiles "\"/\"" [] (by decide +kernel)
  obtain ⟨hclassify, htarget⟩ := resolve_layoutClick s
  have hlink : resourceUrl layoutUrl [] "res/layout/home.xml" =
      "https://res/layout/home.xml".toList := by decide +kernel
  rw [hroot, hlink] at htarget
  have hpage : Url.origin "https" "github.com" <+: layoutUrl := by decide +kernel
  exact ⟨s, hload, hpage, hclassify, htarget, by decide +kernel⟩

end Engine

end CodeNav
