import CodeNav.Proofs.Answers
import CodeNav.Proofs.ResourceRoots
import CodeNav.Proofs.Session

/-!
Links stay in the repository of their page. The address of another file is a beginning of the page's
own address, cut at the path of the package or at the root segment, and a path behind it. As long as
it is cut behind the owner, the repository and the word after them, the link shows a file of the
same repository. An owner that is called like the root segment makes it be cut too early.
-/

namespace CodeNav

namespace Url

def IsSegment (t : Text) : Prop := t ≠ [] ∧ '/' ∉ t

instance (t : Text) : Decidable (IsSegment t) := inferInstanceAs (Decidable (t ≠ [] ∧ '/' ∉ t))

def views (owner repo : Text) : Text := "https://github.com/" ++ owner ++ "/" ++ repo ++ "/blob"

/-- The address shows a file of the repository. -/
def LeadsInto (owner repo url : Text) : Prop :=
  ∃ rest, fileView? url = some ⟨owner, repo, rest⟩

structure IsFileOf (owner repo rest : Text) : Prop where
  owner_segment : IsSegment owner
  repo_segment : IsSegment repo
  rest_ne_nil : rest ≠ []
  line : rest.head? ≠ some '\n'

variable {owner repo rest : Text}

theorem segment?_append {s : Text} (hs : IsSegment s) (t : Text) :
    segment? (s ++ '/' :: t) = some (s, '/' :: t) := by
  have htake : (s ++ '/' :: t).takeWhile (· != '/') = s := by
    rw [List.takeWhile_append_of_pos]
    · simp
    · intro c hc
      have hne : c ≠ '/' := fun h => hs.2 (h ▸ hc)
      simpa using hne
  have hne : s.isEmpty = false := by simpa using hs.1
  simp only [segment?, htake, hne, List.drop_left]
  rfl

/-- The slashes that an address has at least. -/
theorem views_append (owner repo t : Text) : views owner repo ++ t =
    "https:".toList ++ '/' :: ([] ++ '/' :: ("github.com".toList ++
      '/' :: (owner ++ '/' :: (repo ++ '/' :: ("blob".toList ++ t))))) := by
  have hblob : '/' :: (repo ++ '/' :: ("blob".toList ++ t)) =
    "/".toList ++ (repo ++ ("/blob".toList ++ t)) := rfl
  unfold views
  rw [List.append_assoc, List.append_assoc, List.append_assoc, List.append_assoc, hblob]
  rfl

/-- Behind the host, the owner and the repository are read back, and the rest up to the end of the
line. -/
theorem fileView?_of_host {url t : Text} (howner : IsSegment owner) (hrepo : IsSegment repo)
    (hhost : ((after? "http" url).bind fun r => (after? "://" (skip "s" r)).bind fun r =>
      after? "github.com/" (skip "www." r)) =
        some (owner ++ '/' :: (repo ++ '/' :: ("blob/" ++ t)))) :
    fileView? url =
      let line := t.takeWhile (· != '\n')
      if line.isEmpty then none else some ⟨owner, repo, line⟩ := by
  have hslash (r : Text) : after? "/" ('/' :: r) = some r := rfl
  have hblob : after? "/blob/" ('/' :: ("blob/" ++ t)) = some t := rfl
  obtain ⟨r, hscheme, hhost⟩ := Option.bind_eq_some_iff.mp hhost
  obtain ⟨host, hstart, hhost⟩ := Option.bind_eq_some_iff.mp hhost
  simp only [fileView?, Option.bind_eq_bind, hscheme, hstart, hhost, Option.bind_some,
    segment?_append howner, hslash, segment?_append hrepo, hblob]

theorem fileView?_views (howner : IsSegment owner) (hrepo : IsSegment repo) (rest : Text) :
    fileView? (views owner repo ++ '/' :: rest) =
      let line := rest.takeWhile (· != '\n')
      if line.isEmpty then none else some ⟨owner, repo, line⟩ := by
  refine fileView?_of_host howner hrepo ?_
  rw [views_append]
  rfl

theorem IsFileOf.leadsInto (h : IsFileOf owner repo rest) :
    LeadsInto owner repo (views owner repo ++ '/' :: rest) := by
  cases rest with
  | nil => exact absurd rfl h.rest_ne_nil
  | cons c r =>
    have hc : c ≠ '\n' := fun hc => h.line (congrArg some hc)
    have hview := fileView?_views h.owner_segment h.repo_segment (c :: r)
    exact ⟨c :: r.takeWhile (· != '\n'), by simp [hview, hc]⟩

theorem IsFileOf.of_isFileView (howner : IsSegment owner) (hrepo : IsSegment repo)
    (h : isFileView (views owner repo ++ '/' :: rest)) : IsFileOf owner repo rest := by
  refine ⟨howner, hrepo, ?_, ?_⟩
  · rintro rfl
    simp [isFileView, fileView?_views howner hrepo] at h
  · intro hline
    obtain ⟨r, rfl⟩ := List.head?_eq_some_iff.mp hline
    simp [isFileView, fileView?_views howner hrepo] at h

/-- A path that does not begin, as whole segments, at the owner, at the repository or at the word
after them. -/
structure Behind (owner repo rest path : Text) : Prop where
  not_owner : ¬path ++ ['/'] <+: owner ++ "/" ++ repo ++ "/blob/" ++ rest
  not_repo : ¬path ++ ['/'] <+: repo ++ "/blob/" ++ rest
  not_blob : ¬path ++ ['/'] <+: "blob/" ++ rest

/-- A beginning of an address that says which repository it is. -/
def Roots (owner repo rest base : Text) : Prop :=
  ∃ a, base = views owner repo ++ a ∧ a <+: '/' :: rest

theorem Roots.leadsInto {base : Text} (h : Roots owner repo rest base)
    (hfile : IsFileOf owner repo rest) {path : Text} (hne : path ≠ [])
    (hpath : path.head? ≠ some '\n') : LeadsInto owner repo (base ++ '/' :: path) := by
  obtain ⟨a, rfl, hpre⟩ := h
  cases a with
  | nil =>
    rw [List.append_nil]
    exact IsFileOf.leadsInto ⟨hfile.owner_segment, hfile.repo_segment, hne, hpath⟩
  | cons c a =>
    obtain ⟨rfl, b, rfl⟩ := List.cons_prefix_cons.mp hpre
    have hline : (a ++ '/' :: path).head? ≠ some '\n' := by
      cases a with
      | nil => simp
      | cons d a => exact hfile.line
    rw [List.append_assoc]
    exact IsFileOf.leadsInto ⟨hfile.owner_segment, hfile.repo_segment, by simp, hline⟩

/-- A needle that starts with a slash occurs behind every part without slashes. -/
theorem exists_behind {needle s t a b : Text} (hs : '/' ∉ s) (hneedle : needle.head? = some '/')
    (h : s ++ '/' :: t = a ++ needle ++ b) : ∃ a', a = s ++ a' ∧ '/' :: t = a' ++ needle ++ b := by
  obtain ⟨n, rfl⟩ := List.head?_eq_some_iff.mp hneedle
  rw [List.append_assoc] at h
  rcases List.append_eq_append_iff.mp h with ⟨a', rfl, ha'⟩ | ⟨s', rfl, hs'⟩
  · exact ⟨a', rfl, by rw [ha', List.append_assoc]⟩
  · cases s' with
    | nil => exact ⟨[], by simp, by rw [List.append_assoc]; exact hs'.symm⟩
    | cons c s' =>
      obtain ⟨rfl, -⟩ := List.cons.inj hs'
      exact absurd (by simp) hs

theorem exists_behind_slash {needle s t a b : Text} (hs : '/' ∉ s)
    (hneedle : needle.head? = some '/') (h : s ++ '/' :: t = a ++ needle ++ b)
    (hnot : ¬needle <+: '/' :: t) : ∃ a', a = s ++ '/' :: a' ∧ t = a' ++ needle ++ b := by
  obtain ⟨a', rfl, ha'⟩ := exists_behind hs hneedle h
  cases a' with
  | nil => exact absurd ⟨b, ha'.symm⟩ hnot
  | cons c a' =>
    obtain ⟨rfl, rfl⟩ := List.cons.inj ha'
    exact ⟨a', rfl, rfl⟩

theorem dot_mem_of_append {s t p b : Text} (hs : '/' ∉ s) (h : p ++ '/' :: b = s ++ '.' :: t) :
    '.' ∈ p := by
  rcases List.append_eq_append_iff.mp h with ⟨s', rfl, hs'⟩ | ⟨p', rfl, hp'⟩
  · cases s' with
    | nil => exact absurd (List.cons.inj hs').1 (by decide)
    | cons c s' =>
      obtain ⟨rfl, -⟩ := List.cons.inj hs'
      exact absurd (by simp) hs
  · cases p' with
    | nil => exact absurd (List.cons.inj hp').1 (by decide)
    | cons c p' =>
      obtain ⟨rfl, -⟩ := List.cons.inj hp'
      simp

/-- A path without dots occurs in an address only behind the host, whose first part is followed by
a dot. -/
theorem exists_behind_host {scheme host rest path a b : Text} (hscheme : '/' ∉ scheme)
    (hhost : '/' ∉ host) (hname : ∃ s t, host = s ++ '.' :: t) (hpath : path ≠ [])
    (hdot : '.' ∉ path)
    (h : scheme ++ '/' :: ([] ++ '/' :: (host ++ '/' :: rest)) =
      a ++ ('/' :: (path ++ ['/'])) ++ b) :
    ∃ a', a = scheme ++ '/' :: '/' :: (host ++ a') ∧
      '/' :: rest = a' ++ ('/' :: (path ++ ['/'])) ++ b := by
  have hathost {p : Text} (hp : '.' ∉ p) : ¬p ++ ['/'] <+: host ++ '/' :: rest := by
    obtain ⟨s, t, rfl⟩ := hname
    rintro ⟨r, hr⟩
    rw [List.append_assoc, List.append_assoc] at hr
    exact hp (dot_mem_of_append (fun hs => hhost (List.mem_append_left _ hs)) hr)
  have hslashes : ¬path ++ ['/'] <+: '/' :: (host ++ '/' :: rest) := by
    cases path with
    | nil => exact absurd rfl hpath
    | cons c p =>
      intro hpre
      refine hathost (fun hp => hdot ?_) (List.cons_prefix_cons.mp hpre).2
      exact List.mem_cons_of_mem c hp
  obtain ⟨a₁, rfl, h₁⟩ := exists_behind_slash hscheme rfl h
    (by simpa [List.cons_prefix_cons] using hslashes)
  obtain ⟨a₂, rfl, h₂⟩ := exists_behind_slash (by decide) rfl h₁
    (by simpa [List.cons_prefix_cons] using hathost hdot)
  obtain ⟨a₃, rfl, h₃⟩ := exists_behind hhost rfl h₂
  exact ⟨a₃, rfl, h₃⟩

/-- Wherever a path occurs in the address, it does so behind all that says which repository it
is. -/
theorem roots_of_append {path a b : Text} (hfile : IsFileOf owner repo rest) (hpath : path ≠ [])
    (hdot : '.' ∉ path) (hbehind : Behind owner repo rest path)
    (h : views owner repo ++ '/' :: rest = a ++ ('/' :: (path ++ ['/'])) ++ b) :
    Roots owner repo rest a := by
  rw [views_append] at h
  obtain ⟨a₁, rfl, h₁⟩ := exists_behind_host (by decide) (by decide)
    ⟨"github".toList, "com".toList, rfl⟩ hpath hdot h
  -- Slash after slash, up to the one before the revision.
  obtain ⟨a₂, rfl, h₂⟩ := exists_behind_slash List.not_mem_nil rfl h₁
    (by simpa [List.cons_prefix_cons] using hbehind.not_owner)
  obtain ⟨a₃, rfl, h₃⟩ := exists_behind_slash hfile.owner_segment.2 rfl h₂
    (by simpa [List.cons_prefix_cons] using hbehind.not_repo)
  obtain ⟨a₄, rfl, h₄⟩ := exists_behind_slash hfile.repo_segment.2 rfl h₃
    (by simpa [List.cons_prefix_cons] using hbehind.not_blob)
  obtain ⟨a₅, rfl, h₅⟩ := exists_behind (by decide) rfl h₄
  exact ⟨a₅, (views_append owner repo a₅).symm, '/' :: (path ++ ['/']) ++ b,
    by rw [h₅, List.append_assoc]⟩

/-- The last slash of the address is the one before the revision or a later one. -/
theorem roots_of_last {base file : Text} (hfile : '/' ∉ file)
    (h : views owner repo ++ '/' :: rest = base ++ '/' :: file) : Roots owner repo rest base := by
  rcases List.append_eq_append_iff.mp h with ⟨a, rfl, ha⟩ | ⟨s, hs, htail⟩
  · exact ⟨a, rfl, '/' :: file, ha.symm⟩
  · cases s with
    | nil => exact ⟨[], by simp [hs], List.nil_prefix⟩
    | cons c s =>
      obtain ⟨rfl, rfl⟩ := List.cons.inj htail
      exact absurd (by simp) hfile

end Url

namespace Text

theorem not_mem_swap {old new : Char} (h : new ≠ old) (t : Text) : old ∉ swap old new t := by
  intro hmem
  obtain ⟨c, -, hc⟩ := List.mem_map.mp hmem
  split at hc
  · exact h hc
  · next hne => exact hne hc

theorem head?_append_ne {c : Char} {a b : Text} (ha : a.head? ≠ some c) (hb : b.head? ≠ some c) :
    (a ++ b).head? ≠ some c := by
  cases a with
  | nil => exact hb
  | cons d a => exact ha

theorem head?_swap_ne {t : Text} (h : t.head? ≠ some '\n') :
    (swap '.' '/' t).head? ≠ some '\n' := by
  cases t with
  | nil => simp [swap]
  | cons c t =>
    have hc : c ≠ '\n' := fun hc => h (congrArg some hc)
    by_cases hdot : c = '.' <;> simp [swap, hdot, hc]

end Text

/-- No full name starts with a line feed. -/
theorem ImportRules.head?_fullName? {r : ImportRules} {symbol name : Text} {d : Document}
    {c : TokenContext} (h : r.fullName? (Language.bareName symbol) d c = some name) :
    name.head? ≠ some '\n' := by
  have hsymbol : (Language.bareName symbol).trim.head? ≠ some '\n' := fun hhead =>
    absurd (Text.not_isBlank_of_head?_trim hhead) (by decide)
  cases fullName?_bareName_eq_some_iff.mp h with
  | imported himport =>
    obtain ⟨-, line, i, -, hi, rfl⟩ := himport
    intro hhead
    exact absurd (ImportStatement.mem_name hi _ (List.mem_of_head? hhead)) (by decide)
  | sibling _ _ hpackage =>
    intro hhead
    rw [List.append_assoc, List.head?_append_of_ne_nil _ hpackage] at hhead
    exact absurd (d.mem_package _ (List.mem_of_head? hhead)) (by decide)
  | unpackaged => exact hsymbol
  | ownLine => exact hsymbol

theorem head?_of_isQualifiedName {name : Text} (h : isQualifiedName name) :
    name ≠ [] ∧ name.head? ≠ some '\n' := by
  refine ⟨by rintro rfl; exact absurd h (by decide), fun hhead => ?_⟩
  exact absurd (mem_of_isQualifiedName h _ (List.mem_of_head? hhead)) (by decide)

structure Document.Shows (d : Document) (owner repo rest : Text) : Prop
    extends Url.IsFileOf owner repo rest where
  url : Url.stripAnchor d.url = Url.views owner repo ++ '/' :: rest

def Document.packagePath? (d : Document) : Option Text :=
  if d.package.isEmpty then none else some (Text.swap '.' '/' d.package)

variable {owner repo rest : Text}

theorem Document.Shows.resourceUrl {d : Document} (hd : d.Shows owner repo rest) (root : Text)
    (hne : Text.trimChar '/' root ≠ []) (hdot : '.' ∉ Text.trimChar '/' root)
    (hhead : (Text.trimChar '/' root).head? ≠ some '\n')
    (hbehind : Url.Behind owner repo rest (Text.trimChar '/' root)) (path : Text) :
    Url.LeadsInto owner repo (CodeNav.resourceUrl d.url root path) := by
  obtain ⟨base, hbase, htarget⟩ := exists_resourceRoot d.url root path
  rw [hd.url] at hbase
  rw [htarget]
  have hroots : Url.Roots owner repo rest base := by
    cases hbase with
    | segment hcut => exact Url.roots_of_append hd.toIsFileOf hne hdot hbehind hcut.eq
    | directory _ hlast hfile => exact Url.roots_of_last hfile hlast
    | whole _ hslash => exact absurd (by simp) hslash
  have hhead : (Text.trimChar '/' root ++ '/' :: path).head? ≠ some '\n' :=
    Text.head?_append_ne hhead (by simp)
  exact hroots.leadsInto hd.toIsFileOf (by simp) hhead

namespace ImportRules

variable {d : Document} (hd : d.Shows owner repo rest)
  (hbehind : ∀ path, d.packagePath? = some path → Url.Behind owner repo rest path)

include hd hbehind

theorem roots_of_sourceRoot {root : Text}
    (h : SourceRoot d.package (Url.stripAnchor d.url) root) : Url.Roots owner repo rest root := by
  rw [hd.url] at h
  cases h with
  | ofPackage hpackage hcut =>
    have hne : Text.swap '.' '/' d.package ≠ [] := by simpa [Text.swap] using hpackage
    have hpath : d.packagePath? = some (Text.swap '.' '/' d.package) := by
      simp [Document.packagePath?, hpackage]
    exact Url.roots_of_append hd.toIsFileOf hne (Text.not_mem_swap (by decide) _)
      (hbehind _ hpath) (by simpa using hcut.eq)
  | directory hpackage hbase hfile => exact Url.roots_of_last hfile (by simpa using hbase)
  | whole hpackage hslash => exact absurd (by simp) hslash

theorem fileUrl?_leadsInto {name url : Text} {line : Int} (hname : name.head? ≠ some '\n')
    (h : fileUrl? d name line = some url) : Url.LeadsInto owner repo url := by
  obtain ⟨root, extension, hroot, -, rfl⟩ := fileUrl?_eq_some_iff.mp h
  have hhead : (Text.swap '.' '/' name ++ '.' :: (extension ++ "#L" ++ Text.ofInt line)).head? ≠
      some '\n' :=
    Text.head?_append_ne (Text.head?_swap_ne hname) (by simp)
  simpa using (roots_of_sourceRoot hd hbehind hroot).leadsInto hd.toIsFileOf (by simp) hhead

theorem directoryUrl?_leadsInto {name url : Text} (hne : name ≠ [])
    (hname : name.head? ≠ some '\n') (h : directoryUrl? d name = some url) :
    Url.LeadsInto owner repo url := by
  obtain ⟨root, hroot, rfl⟩ := Option.map_eq_some_iff.mp h
  have hne : Text.swap '.' '/' name ≠ [] := by simpa [Text.swap] using hne
  simpa using (roots_of_sourceRoot hd hbehind (sourceRoot?_eq_some_iff.mp hroot)).leadsInto
    hd.toIsFileOf hne (Text.head?_swap_ne hname)

end ImportRules

namespace Engine

/-- What the address of the page is cut at for a link to another file. -/
def cutPathOf? (e : Engine) : Reference → Option Text
  | .resource _ _ => some (Text.trimChar '/' e.settings.rootSegment)
  | _ => e.document.packagePath?

def cutPath? (e : Engine) (req : Request) : Option Text := e.cutPathOf? (e.classify req)

theorem cutPathOf?_of_classOf? {e : Engine} {r : Reference} {symbol : Text}
    (h : e.classOf? r = some symbol) : e.cutPathOf? r = e.document.packagePath? := by
  cases r with
  | resource => cases h
  | _ => rfl

theorem withLine_leadsInto {e : Engine} (he : e.document.Shows owner repo rest) (line : Int) :
    Url.LeadsInto owner repo (Url.withLine e.document.url line) := by
  have hline : (rest ++ ("#L" ++ Text.ofInt line)).head? ≠ some '\n' := by
    rw [List.head?_append_of_ne_nil _ he.rest_ne_nil]
    exact he.line
  rw [Url.withLine, he.url]
  simpa using Url.IsFileOf.leadsInto ⟨he.owner_segment, he.repo_segment, by simp, hline⟩

theorem Leads.leadsInto {e : Engine} (he : e.document.Shows owner repo rest)
    (hroot : e.settings.rootSegment = "main".toList) {req : Request} {r : Reference} {t : Target}
    (ht : e.Leads req r t)
    (hbehind : t.newTab → ∀ path, e.cutPathOf? r = some path → Url.Behind owner repo rest path)
    {url : Text} (hurl : t.url = some url) : Url.LeadsInto owner repo url := by
  cases ht with
  | nowhere => cases hurl
  | method | onVariable | declared =>
    obtain rfl := Option.some.inj hurl
    exact withLine_leadsInto he _
  | file hr hname h =>
    obtain rfl := Option.some.inj hurl
    rw [cutPathOf?_of_classOf? hr] at hbehind
    exact ImportRules.fileUrl?_leadsInto he (hbehind rfl) (ImportRules.head?_fullName? hname) h
  | imported hname h =>
    obtain rfl := Option.some.inj hurl
    exact ImportRules.fileUrl?_leadsInto he (hbehind rfl) (head?_of_isQualifiedName hname).2 h
  | directory hname h =>
    obtain rfl := Option.some.inj hurl
    obtain ⟨hne, hhead⟩ := head?_of_isQualifiedName hname
    exact ImportRules.directoryUrl?_leadsInto he (hbehind rfl) hne hhead h
  | resource =>
    obtain rfl := Option.some.inj hurl
    rw [hroot]
    have hmain (subkind name : Text) :
        e.cutPathOf? (.resource subkind name) = some (Text.trimChar '/' "main") := by
      rw [cutPathOf?, hroot]
    exact he.resourceUrl "main" (by decide) (by decide) (by decide) (hbehind rfl _ (hmain _ _)) _

end Engine

namespace Navigator

/-- With the root segment that is standard, every link of a page that shows a file leads into the
repository of the page, unless it opens a new tab and the path that the address is cut at begins
too early in it. -/
theorem resolve_leadsInto {n m : Navigator} {d : Document} {e : Engine}
    (hsettings : n.settings.rootSegment = "main".toList) (hactive : n.activate d = .ok m)
    (hengine : m.engine = some e) (howner : Url.IsSegment owner) (hrepo : Url.IsSegment repo)
    (hurl : d.url = Url.views owner repo ++ '/' :: rest) (hanchor : '#' ∉ d.url) (req : Request)
    (hbehind : (e.resolve req).target.newTab → ∀ path, e.cutPath? req = some path →
      Url.Behind owner repo rest path)
    {url : Text} (htarget : (e.resolve req).target.url = some url) :
    Url.LeadsInto owner repo url := by
  obtain ⟨e?, he?, rfl⟩ := activate_eq_ok hactive
  obtain rfl : e? = some e := hengine
  obtain ⟨hview, hopen⟩ := engineFor_eq_ok_some he?
  obtain ⟨rfl, hset, -⟩ := open?_eq_ok_some hopen
  have hshows : e.document.Shows owner repo rest :=
    ⟨.of_isFileView howner hrepo (hurl ▸ hview), (Url.stripAnchor_eq_self hanchor).trans hurl⟩
  have hroot : e.settings.rootSegment = "main".toList := by rw [hset, hsettings]
  exact (e.resolve_leads req).leadsInto hshows hroot hbehind htarget

def importPage : Document :=
  .ofText "package p\n\nimport a.Home\n" "https://github.com/o/r/blob/main/src/p/Main.kt" "now"

def importEngine : Engine := ⟨importPage, .kotlin, [.layout, .menu, .string], {}⟩

def onImport : Request := ⟨".Home", ⟨["import", " ", "a"], ".Home", [], none, none⟩, none⟩

theorem resolve_leadsInto_import :
    activate {} importPage = .ok { engine := some importEngine } ∧
      (importEngine.resolve onImport).target.url =
        some "https://github.com/o/r/blob/main/src/a/Home.kt#L1".toList ∧
      Url.LeadsInto "o" "r" "https://github.com/o/r/blob/main/src/a/Home.kt#L1" := by
  have hactive : activate {} importPage = .ok { engine := some importEngine } := by
    have hview : Url.isFileView importPage.url := by decide +kernel
    have hlanguage : Language.ofUrl? importPage.url = some .kotlin := by decide +kernel
    exact activate_of_isFileView {} rfl rfl hview hlanguage
  have htarget : (importEngine.resolve onImport).target.url =
      some "https://github.com/o/r/blob/main/src/a/Home.kt#L1".toList := by decide +kernel
  have hurl : importPage.url = Url.views "o" "r" ++ '/' :: "main/src/p/Main.kt" := by decide +kernel
  refine ⟨hactive, htarget, resolve_leadsInto (n := {}) rfl hactive rfl (by decide) (by decide) hurl
    (by decide +kernel) onImport (fun _ path hpath => ?_) htarget⟩
  have hcut : importEngine.cutPath? onImport = some "p".toList := by decide +kernel
  obtain rfl := Option.some.inj (hcut.symm.trans hpath)
  exact ⟨by decide, by decide, by decide⟩

/-- Where a click on a page leads, with nothing set. -/
def link? (d : Document) (req : Request) : Option Text := do
  let n ← (activate {} d).toOption
  let e ← n.engine
  (e.resolve req).target.url

/-- A page of an owner who is called like the root segment, and a click on a layout. -/
def mainPage : Document :=
  .ofText "package com.app\n\nval page = R.layout.home\n"
    "https://github.com/main/app/blob/dev/app/src/main/java/com/app/Main.kt" "now"

def onLayout : Request :=
  ⟨".home", ⟨["val", " ", "page", " ", "=", " ", "R", ".layout"], ".home", [], none, none⟩, none⟩

/-- A page whose package is called like the owner and the repository, and a click on a class of
it. -/
def acmePage : Document :=
  .ofText "package acme.app\n\nimport acme.app.Home\n\nval home = Home\n"
    "https://github.com/acme/app/blob/main/src/acme/app/Main.kt" "now"

def onClass : Request :=
  ⟨"Home", ⟨["val", " ", "home", " ", "=", " "], "Home", [], none, none⟩, none⟩

/-- An address is cut where the path occurs first, be it before the repository. -/
theorem resolve_leaves_repository :
    (Url.fileView? mainPage.url).map (·.owner) = some "main".toList ∧
      link? mainPage onLayout = some "https://github.com/main/res/layout/home.xml".toList ∧
      Url.isFileView "https://github.com/main/res/layout/home.xml" = false ∧
      (Url.fileView? acmePage.url).map (·.repo) = some "app".toList ∧
      link? acmePage onClass = some "https://github.com/acme/app/Home.kt#L1".toList ∧
      Url.isFileView "https://github.com/acme/app/Home.kt#L1" = false := by
  decide +kernel

end Navigator

end CodeNav
