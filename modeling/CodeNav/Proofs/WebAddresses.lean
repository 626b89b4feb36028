import CodeNav.Proofs.Coherence
import CodeNav.Proofs.EnabledKinds
import CodeNav.Proofs.Repository
import CodeNav.Proofs.SecondSteps
import CodeNav.Remote.GitHub

/-!
Links are addresses of the web. Wherever the address of a page is cut for a link to another file,
the link names a host: that of the page, or, when the root segment is empty, the first directory of
the resources. So the remote side refuses none of the addresses that an answer asks for
(`Engine.regularFor_remote`).
-/

namespace CodeNav

namespace Url

def webSchemes : List Text := ["http", "https"]

def pageHosts : List Text := ["github.com", "www.github.com"]

/-- The hosts that links lead to: those of pages and of plain content, and the directory that takes
the place of a host when an address is cut in front of it. -/
def linkHosts : List Text := ["github.com", "www.github.com", "raw.githubusercontent.com", "res"]

def OnHost (hosts : List Text) (url : Text) : Prop :=
  ∃ s ∈ webSchemes, ∃ h ∈ hosts, ∃ path, url = s ++ ("://" ++ (h ++ '/' :: path))

/-- A beginning of such an address that has its host in it. -/
def ReachesHost (hosts : List Text) (base : Text) : Prop :=
  ∃ s ∈ webSchemes, ∃ h ∈ hosts, ∃ path, base = s ++ ("://" ++ (h ++ path)) ∧
    (path = [] ∨ path.head? = some '/')

variable {hosts : List Text} {url : Text}

theorem OnHost.mono {others : List Text} (hsub : hosts ⊆ others) (h : OnHost hosts url) :
    OnHost others url := by
  obtain ⟨s, hs, host, hhost, path, rfl⟩ := h
  exact ⟨s, hs, host, hsub hhost, path, rfl⟩

theorem onHost_iff_origin :
    OnHost hosts url ↔ ∃ s ∈ webSchemes, ∃ h ∈ hosts, origin s h <+: url := by
  have heq (s h path : Text) : s ++ ("://" ++ (h ++ '/' :: path)) = origin s h ++ path := by
    simp [origin]
  constructor
  · rintro ⟨s, hs, host, hhost, path, rfl⟩
    exact ⟨s, hs, host, hhost, path, (heq s host path).symm⟩
  · rintro ⟨s, hs, host, hhost, path, rfl⟩
    exact ⟨s, hs, host, hhost, path, (heq s host path).symm⟩

theorem ReachesHost.onHost {base : Text} (h : ReachesHost hosts base) (path : Text) :
    OnHost hosts (base ++ '/' :: path) := by
  obtain ⟨s, hs, host, hhost, front, rfl, hfront⟩ := h
  rcases hfront with rfl | hfront
  · exact ⟨s, hs, host, hhost, path, by simp⟩
  · obtain ⟨r, rfl⟩ := List.head?_eq_some_iff.mp hfront
    exact ⟨s, hs, host, hhost, r ++ '/' :: path, by simp⟩

theorem not_mem_webSchemes {s : Text} (hs : s ∈ webSchemes) : '#' ∉ s ∧ '/' ∉ s := by
  revert s
  decide

theorem not_mem_linkHosts {h : Text} (hh : h ∈ linkHosts) : '#' ∉ h ∧ '/' ∉ h := by
  revert h
  decide

/-- The host stands before any anchor. -/
theorem OnHost.stripAnchor (hsub : hosts ⊆ linkHosts) (h : OnHost hosts url) :
    OnHost hosts (stripAnchor url) := by
  obtain ⟨s, hs, host, hhost, horigin⟩ := onHost_iff_origin.mp h
  refine onHost_iff_origin.mpr ⟨s, hs, host, hhost, ?_⟩
  exact origin_prefix_stripAnchor (not_mem_webSchemes hs).1 (not_mem_linkHosts (hsub hhost)).1
    horigin

/-- An address on one of these hosts is one of the web, and is not refused. -/
theorem OnHost.isWeb (h : OnHost linkHosts url) : isWeb url = .ok true := by
  obtain ⟨s, hs, host, hhost, path, rfl⟩ := h
  simp only [webSchemes, linkHosts, List.mem_cons, List.not_mem_nil, or_false] at hs hhost
  rcases hs with rfl | rfl <;> rcases hhost with rfl | rfl | rfl | rfl <;> rfl

theorem eq_append_of_after? {start rest : Text} (h : after? start url = some rest) :
    url = start ++ rest := by
  unfold after? at h
  split at h
  · next hpre =>
    obtain ⟨r, rfl⟩ := List.isPrefixOf_iff_prefix.mp hpre
    rw [List.drop_left] at h
    rw [Option.some.inj h]
  · cases h

theorem eq_or_append_of_skip (start url : Text) :
    url = skip start url ∨ url = start ++ skip start url := by
  unfold skip
  cases h : after? start url with
  | none => exact .inl rfl
  | some rest => exact .inr (eq_append_of_after? h)

/-- The scheme and the host stand in front of what is read next. -/
theorem exists_origin_of_after? {url scheme host path : Text}
    (hscheme : after? "http" url = some scheme) (hhost : after? "://" (skip "s" scheme) = some host)
    (hpath : after? "github.com/" (skip "www." host) = some path) :
    ∃ s ∈ webSchemes, ∃ h ∈ pageHosts, url = origin s h ++ path := by
  have hscheme := eq_append_of_after? hscheme
  have hhost := eq_append_of_after? hhost
  have hpath := eq_append_of_after? hpath
  obtain ⟨s, hs, hurl⟩ : ∃ s ∈ webSchemes, url = s ++ ("://" ++ host) := by
    rcases eq_or_append_of_skip "s" scheme with hskip | hskip
    · exact ⟨"http".toList, by decide, by rw [hscheme, hskip, hhost]⟩
    · exact ⟨"https".toList, by decide, by rw [hscheme, hskip, hhost]; rfl⟩
  rcases eq_or_append_of_skip "www." host with hskip | hskip
  · exact ⟨s, hs, "github.com".toList, by decide, by rw [hurl, hskip, hpath]; simp [origin]⟩
  · exact ⟨s, hs, "www.github.com".toList, by decide, by rw [hurl, hskip, hpath]; simp [origin]⟩

theorem onHost_of_isFileView (h : isFileView url) : OnHost pageHosts url := by
  unfold isFileView fileView? at h
  obtain ⟨v, hv⟩ := Option.isSome_iff_exists.mp h
  obtain ⟨scheme, hscheme, hv⟩ := Option.bind_eq_some_iff.mp hv
  obtain ⟨host, hhost, hv⟩ := Option.bind_eq_some_iff.mp hv
  obtain ⟨path, hpath, -⟩ := Option.bind_eq_some_iff.mp hv
  obtain ⟨s, hs, h, hh, hurl⟩ := exists_origin_of_after? hscheme hhost hpath
  exact onHost_iff_origin.mpr ⟨s, hs, h, hh, path, hurl.symm⟩

/-- Plain content is served from a host of its own. -/
theorem OnHost.raw (h : OnHost linkHosts (Url.stripAnchor url)) : OnHost linkHosts (raw url) := by
  unfold Url.raw
  split
  · next v _ =>
    have hhost : rawHost = "https".toList ++ ("://".toList ++ "raw.githubusercontent.com".toList) :=
      rfl
    refine ⟨"https".toList, by decide, "raw.githubusercontent.com".toList, by decide,
      v.owner ++ "/" ++ v.repo ++ "/" ++ v.rest, ?_⟩
    rw [hhost]
    simp only [List.append_assoc]
    rfl
  · exact h

theorem pageHosts_subset : pageHosts ⊆ linkHosts := List.prefix_append _ _ |>.subset

/-- The slashes of an address around its host. -/
theorem onHost_eq (s h path : Text) : s ++ ("://" ++ (h ++ '/' :: path)) =
    (s ++ [':']) ++ '/' :: ([] ++ '/' :: (h ++ '/' :: path)) := by simp

theorem not_mem_scheme_colon {s : Text} (hs : s ∈ webSchemes) : '/' ∉ s ++ [':'] := by
  simp [(not_mem_webSchemes hs).2]

theorem eq_nil_or_head? {c : Char} {a b t : Text} (h : c :: t = a ++ b) :
    a = [] ∨ a.head? = some c := by
  cases a with
  | nil => exact .inl rfl
  | cons d a => exact .inr (congrArg some (List.cons.inj h).1.symm)

/-- The last slash of an address is the one behind its host or a later one. -/
theorem reachesHost_of_last {base file : Text} (h : OnHost pageHosts url)
    (hlast : url = base ++ '/' :: file) (hfile : '/' ∉ file) : ReachesHost pageHosts base := by
  obtain ⟨s, hs, host, hhost, path, rfl⟩ := h
  have hfront : (s ++ ("://" ++ host)) ++ '/' :: path = base ++ '/' :: file := by
    rw [← hlast]
    simp
  rcases List.append_eq_append_iff.mp hfront with ⟨a, rfl, ha⟩ | ⟨c, hc, htail⟩
  · exact ⟨s, hs, host, hhost, a, by simp, eq_nil_or_head? ha⟩
  · cases c with
    | nil => exact ⟨s, hs, host, hhost, [], by simpa using hc.symm, .inl rfl⟩
    -- A beginning that ends before the host has ended leaves a slash behind it.
    | cons d c =>
      obtain ⟨rfl, rfl⟩ := List.cons.inj htail
      exact absurd (by simp) hfile

theorem exists_dot_of_mem_pageHosts {h : Text} (hh : h ∈ pageHosts) :
    ∃ a b, h = a ++ '.' :: b := by
  simp only [pageHosts, List.mem_cons, List.not_mem_nil, or_false] at hh
  rcases hh with rfl | rfl
  · exact ⟨"github".toList, "com".toList, rfl⟩
  · exact ⟨"www".toList, "github.com".toList, rfl⟩

theorem reachesHost_of_append {path a b : Text} (h : OnHost pageHosts url) (hpath : path ≠ [])
    (hdot : '.' ∉ path) (hcut : url = a ++ ('/' :: (path ++ ['/'])) ++ b) :
    ReachesHost pageHosts a := by
  obtain ⟨s, hs, host, hhost, rest, rfl⟩ := h
  rw [onHost_eq] at hcut
  obtain ⟨a', rfl, ha'⟩ := exists_behind_host (not_mem_scheme_colon hs)
    (not_mem_linkHosts (pageHosts_subset hhost)).2 (exists_dot_of_mem_pageHosts hhost) hpath hdot
    hcut
  rw [List.append_assoc] at ha'
  exact ⟨s, hs, host, hhost, a', by simp, eq_nil_or_head? ha'⟩

end Url

open Url

/-- Resources are files of the page's host or, where an empty root segment is found in front of it,
of a host called like their first directory. -/
theorem onHost_resourceUrl {url : Text} (h : OnHost pageHosts (stripAnchor url))
    (root path : Text) : OnHost linkHosts (resourceUrl url root ("res/" ++ path)) := by
  obtain ⟨base, hbase, htarget⟩ := exists_resourceRoot url root ("res/" ++ path)
  obtain ⟨s, hs, host, hhost, horigin⟩ := onHost_iff_origin.mp h
  have hslash := (not_mem_webSchemes hs).2
  rw [htarget]
  by_cases hempty : Text.trimChar '/' root = []
  · rw [hempty] at hbase ⊢
    obtain rfl := hbase.eq_of_nil hslash horigin
    exact ⟨s, hs, "res".toList, by decide, path, by simp⟩
  · refine onHost_iff_origin.mpr ⟨s, hs, host, pageHosts_subset hhost, ?_⟩
    refine (hbase.origin_isPrefix hslash (not_mem_linkHosts (pageHosts_subset hhost)).2 hempty
      horigin).trans ?_
    exact ⟨"res/" ++ path, by simp⟩

namespace ImportRules

variable {d : Document} (h : OnHost pageHosts (stripAnchor d.url))

include h

theorem reachesHost_of_sourceRoot {root : Text}
    (hroot : SourceRoot d.package (stripAnchor d.url) root) : ReachesHost pageHosts root := by
  cases hroot with
  | ofPackage hpackage hcut =>
    have hne : Text.swap '.' '/' d.package ≠ [] := by simpa [Text.swap] using hpackage
    exact reachesHost_of_append h hne (Text.not_mem_swap (by decide) _) (by simpa using hcut.eq)
  | directory hpackage hbase hfile => exact reachesHost_of_last h (by simpa using hbase) hfile
  | whole hpackage hslash =>
    obtain ⟨s, -, host, -, rest, heq⟩ := h
    exact absurd (by simp [heq]) hslash

theorem onHost_fileUrl? {name url : Text} {line : Int} (hurl : fileUrl? d name line = some url) :
    OnHost pageHosts url := by
  obtain ⟨root, extension, hroot, -, rfl⟩ := fileUrl?_eq_some_iff.mp hurl
  simpa using (reachesHost_of_sourceRoot h hroot).onHost
    (Text.swap '.' '/' name ++ "." ++ extension ++ "#L" ++ Text.ofInt line)

theorem onHost_directoryUrl? {name url : Text} (hurl : directoryUrl? d name = some url) :
    OnHost pageHosts url := by
  obtain ⟨root, hroot, rfl⟩ := Option.map_eq_some_iff.mp hurl
  simpa using (reachesHost_of_sourceRoot h (sourceRoot?_eq_some_iff.mp hroot)).onHost
    (Text.swap '.' '/' name)

end ImportRules

def ResourceFeature.InResources (f : ResourceFeature) : Prop :=
  ∀ name, ∃ path : Text, f.path name = "res/" ++ path

theorem ResourceFeature.ofFiles_inResources (subkind directory extension : Text) :
    (ofFiles subkind ("res/" ++ directory) extension).InResources := fun name =>
  ⟨directory ++ "/" ++ name ++ "." ++ extension, by simp [ofFiles]⟩

theorem ResourceFeature.builtIn_inResources {p : Text × ResourceFeature} (hp : p ∈ builtIn) :
    p.2.InResources := by
  simp only [builtIn, List.mem_cons, List.not_mem_nil, or_false] at hp
  rcases hp with rfl | rfl | rfl
  · exact ofFiles_inResources "layout" "layout" "xml"
  · exact ofFiles_inResources "menu" "menu" "xml"
  · exact fun _ => ⟨"values/strings.xml".toList, rfl⟩

/-- Without extensions only built-in kinds are in use. -/
theorem Catalog.mem_builtIn_of_features {enabled : Option (List Text)} {fs : List ResourceFeature}
    (h : features [] enabled = .ok fs) {f : ResourceFeature} (hf : f ∈ fs) :
    ∃ name, (name, f) ∈ ResourceFeature.builtIn := by
  obtain ⟨name, hoffer⟩ := exists_offer_of_features h hf
  rw [offers, List.map_nil, List.append_nil] at hoffer
  obtain ⟨p, hp, heq⟩ := List.mem_map.mp hoffer
  obtain rfl := Option.some.inj (Prod.mk.inj heq).2
  exact ⟨p.1, hp⟩

theorem Catalog.features_inResources {enabled : Option (List Text)} {fs : List ResourceFeature}
    (h : features [] enabled = .ok fs) : ∀ f ∈ fs, f.InResources := by
  intro f hf
  obtain ⟨name, hbuiltIn⟩ := mem_builtIn_of_features h hf
  exact ResourceFeature.builtIn_inResources hbuiltIn

namespace Engine

variable {e : Engine}

theorem feature?_inResources (he : ∀ f ∈ e.features, f.InResources) {subkind : Text}
    {f : ResourceFeature} (hf : e.feature? subkind = some f) : f.InResources := by
  rcases mem_features_of_feature? hf with ⟨hmem, -⟩ | rfl
  · exact he f hmem
  · exact ResourceFeature.ofFiles_inResources "menu" "menu" "xml"

/-- Wherever an answer leads, it is on a host. -/
theorem Leads.onHost {req : Request} {r : Reference} {t : Target} (ht : e.Leads req r t)
    (hpage : OnHost pageHosts (stripAnchor e.document.url))
    (he : ∀ f ∈ e.features, f.InResources) {url : Text} (hurl : t.url = some url) :
    OnHost linkHosts (stripAnchor url) := by
  have hlink {u : Text} (hu : OnHost pageHosts u) : OnHost linkHosts (stripAnchor u) :=
    (hu.mono pageHosts_subset).stripAnchor (List.Subset.refl _)
  cases ht with
  | nowhere => cases hurl
  | method | onVariable | declared =>
    obtain rfl := Option.some.inj hurl
    rw [stripAnchor_withLine]
    exact hpage.mono pageHosts_subset
  | file _ _ h | imported _ h =>
    obtain rfl := Option.some.inj hurl
    exact hlink (ImportRules.onHost_fileUrl? hpage h)
  | directory _ h =>
    obtain rfl := Option.some.inj hurl
    exact hlink (ImportRules.onHost_directoryUrl? hpage h)
  | @resource f _ _ name hf _ =>
    obtain rfl := Option.some.inj hurl
    obtain ⟨path, hpath⟩ := feature?_inResources he hf name
    rw [hpath]
    exact (onHost_resourceUrl hpage _ path).stripAnchor (List.Subset.refl _)

end Engine

namespace GitHub

theorem lookUp_error {web : Web} {url : Text} (hweb : isWeb (stripAnchor url) = .ok true)
    {e : RemoteFault} (h : (lookUp web url).answer = .error e) : ∃ m, e = .system m := by
  unfold lookUp at h
  simp only [hweb] at h
  split at h
  any_goals cases h
  exact ⟨_, rfl⟩

theorem fetch_error {web : Web} {url : Text} (hweb : isWeb (raw url) = .ok true) {e : RemoteFault}
    (h : (fetch web url).answer = .error e) (m : Text) : e ≠ .address m := by
  unfold fetch at h
  simp only [hweb] at h
  rintro rfl
  split at h
  any_goals cases h
  split at h <;> cases h

end GitHub

/-- The web refuses none of the addresses that an answer asks for. -/
theorem Engine.regularFor_remote {s : Settings} {d : Document} {e : Engine}
    (hview : isFileView d.url) (hopen : Engine.open? [] s d = .ok (some e)) (web : Web)
    (req : Request) : (GitHub.remote web).RegularFor (e.resolve req) := by
  obtain ⟨rfl, -, -, hfeatures⟩ := Navigator.open?_eq_ok_some hopen
  have hpage : OnHost pageHosts (stripAnchor e.document.url) :=
    (onHost_of_isFileView hview).stripAnchor pageHosts_subset
  have hlink : ∀ url, (e.resolve req).target.url = some url → OnHost linkHosts (stripAnchor url) :=
    fun url hurl => (e.resolve_leads req).onHost hpage (Catalog.features_inResources hfeatures) hurl
  refine ⟨fun f c m hf hc => ?_, fun a url c ha hurl hc => ?_⟩
  · have hkinds : ∀ f ∈ e.features, f.StaysInFile := fun f hmem => by
      obtain ⟨name, hbuiltIn⟩ := Catalog.mem_builtIn_of_features hfeatures hmem
      exact ResourceFeature.staysInFile_builtIn hbuiltIn
    have hurl := e.resolve_staysInFile hkinds req f hf
    exact GitHub.fetch_error (hlink _ hurl).raw.isWeb hc m
  · -- A second step keeps the file.
    have hsame : (e.resolve req).SameFile a := by
      rcases ha with rfl | ⟨t, rfl⟩
      · exact .refl _
      · exact Resolution.refine_sameFile _ t
    have hfile := hsame.target.url
    rw [hurl, Option.map_some] at hfile
    obtain ⟨u, hu, hstrip⟩ := Option.map_eq_some_iff.mp hfile
    exact GitHub.lookUp_error (hstrip ▸ (hlink u hu).isWeb) hc

end CodeNav
