import CodeNav.Proofs.ImportSegments
import CodeNav.Proofs.LineNumbers
import CodeNav.Proofs.WebAddresses

namespace CodeNav

theorem Text.feed_not_mem_ofInt (n : Int) : '\n' ∉ ofInt n := by
  have hdigits (k : Nat) : '\n' ∉ Nat.toDigits 10 k := fun hfeed =>
    absurd (Nat.isDigit_of_mem_toDigits (by decide) (by decide) hfeed) (by decide)
  cases n with
  | ofNat k => exact hdigits k
  | negSucc k => simp [ofInt, hdigits]

theorem feed_not_mem_of_isWord_or {t : Text} (marks : Text) (h : ∀ c ∈ t, isWord c ∨ c ∈ marks)
    (hmarks : '\n' ∉ marks) : '\n' ∉ t := by
  intro hfeed
  rcases h _ hfeed with hword | hmark
  · exact absurd hword (by decide)
  · exact hmarks hmark

namespace Url

theorem feed_not_mem_withLine {url : Text} (h : '\n' ∉ url) (line : Int) :
    '\n' ∉ withLine url line := by
  have hfile : '\n' ∉ stripAnchor url := mt mem_of_mem_stripAnchor h
  have hmark : '\n' ∉ "#L".toList := by decide
  simp only [withLine, List.mem_append, hfile, hmark, Text.feed_not_mem_ofInt, or_self,
    not_false_eq_true]

theorem isWord_of_mem_dottedWords {t w : Text} (hw : w ∈ dottedWords t) : ∀ c ∈ w, isWord c := by
  induction t with
  | nil => cases hw
  | cons d r ih =>
    rw [dottedWords] at hw
    split at hw
    · rcases List.mem_cons.mp hw with rfl | hw
      · exact fun c hc => List.all_eq_true.mp List.all_takeWhile c hc
      · exact ih hw
    · exact ih hw

theorem feed_not_mem_extension? {url extension : Text} (h : extension? url = some extension) :
    '\n' ∉ extension := fun hfeed =>
  absurd (isWord_of_mem_dottedWords (List.mem_of_getLast? h) _ hfeed) (by decide)

end Url

theorem Text.feed_not_mem_swap {t : Text} (h : '\n' ∉ t) : '\n' ∉ swap '.' '/' t := by
  intro hfeed
  obtain ⟨c, hc, hswap⟩ := List.mem_map.mp hfeed
  split at hswap
  · exact absurd hswap (by decide)
  · exact h (hswap ▸ hc)

namespace ImportRules

variable {d : Document} {name url : Text}

theorem feed_not_mem_directoryUrl? (hd : '\n' ∉ d.url) (hname : '\n' ∉ name)
    (h : directoryUrl? d name = some url) : '\n' ∉ url := by
  obtain ⟨root, hroot, rfl⟩ := Option.map_eq_some_iff.mp h
  have hroot : '\n' ∉ root := fun hfeed =>
    hd (Url.mem_of_mem_stripAnchor ((sourceRoot?_eq_some_iff.mp hroot).isPrefix.subset hfeed))
  simp [hroot, Text.feed_not_mem_swap hname]

theorem feed_not_mem_fileUrl? {line : Int} (hd : '\n' ∉ d.url) (hname : '\n' ∉ name)
    (h : fileUrl? d name line = some url) : '\n' ∉ url := by
  obtain ⟨root, extension, hroot, hextension, rfl⟩ := fileUrl?_eq_some_iff.mp h
  have hroot : '\n' ∉ root := fun hfeed =>
    hd (Url.mem_of_mem_stripAnchor (hroot.isPrefix.subset hfeed))
  simp [hroot, Text.feed_not_mem_swap hname, Url.feed_not_mem_extension? hextension,
    Text.feed_not_mem_ofInt]

theorem feed_not_mem_fullName? {r : ImportRules} {symbol : Text} {c : TokenContext}
    (hsymbol : '\n' ∉ symbol) (h : r.fullName? (Language.bareName symbol) d c = some name) :
    '\n' ∉ name := by
  have hbare (t : Text) (ht : '\n' ∉ t) : '\n' ∉ Language.bareName t := fun hfeed =>
    ht (Text.mem_of_mem_trim (List.mem_of_mem_filter hfeed))
  have hsymbol := hbare _ (hbare _ hsymbol)
  have hpackage : '\n' ∉ d.package := feed_not_mem_of_isWord_or ['.']
    (fun c hc => by simpa using d.mem_package c hc) (by decide)
  cases fullName?_eq_some_iff.mp h with
  | imported h =>
    obtain ⟨_, _, i, -, hi, rfl⟩ := h
    exact feed_not_mem_of_isWord_or ['.', '*']
      (fun c hc => by simpa using ImportStatement.mem_name hi c hc) (by decide)
  | sibling => simp [hpackage, hsymbol]
  | unpackaged | ownLine => exact hsymbol

end ImportRules

theorem feed_not_mem_resourceUrl {url root path : Text} (hurl : '\n' ∉ url) (hroot : '\n' ∉ root)
    (hpath : '\n' ∉ path) : '\n' ∉ resourceUrl url root path := by
  obtain ⟨base, hbase, heq⟩ := exists_resourceRoot url root path
  have hbase : '\n' ∉ base := fun hfeed =>
    hurl (Url.mem_of_mem_stripAnchor (hbase.isPrefix.subset hfeed))
  have hroot : '\n' ∉ Text.trimChar '/' root := by
    intro hfeed
    unfold Text.trimChar at hfeed
    have hback := (List.dropWhile_sublist _).subset (List.mem_reverse.mp hfeed)
    exact hroot ((List.dropWhile_sublist _).subset (List.mem_reverse.mp hback))
  simp [heq, hbase, hroot, hpath]

theorem Text.isWord_of_mem_wordAfter? {start t name : Text} (h : wordAfter? start t = some name) :
    ∀ c ∈ name, isWord c := by
  induction t with
  | nil => cases h
  | cons d r ih =>
    unfold wordAfter? at h
    split at h
    · obtain rfl := Option.some.inj h
      exact fun c hc => List.all_eq_true.mp List.all_takeWhile c hc
    · exact ih h

theorem Text.isWord_of_mem_bareWord? {t name : Text} (h : bareWord? t = some name) :
    ∀ c ∈ name, isWord c := by
  unfold bareWord? at h
  dsimp only at h
  split at h
  · obtain rfl := Option.some.inj h
    exact fun c hc => List.all_eq_true.mp List.all_takeWhile c hc
  · cases h

namespace ResourceFeature

/-- The path of a file of this kind holds a line feed only if the name does. -/
def KeepsLine (f : ResourceFeature) : Prop := ∀ name, '\n' ∉ name → '\n' ∉ f.path name

theorem feed_not_mem_name? {f : ResourceFeature} {token name : Text}
    (h : f.name? token = some name) : '\n' ∉ name := by
  refine feed_not_mem_of_isWord_or [] (fun c hc => .inl ?_) (by decide)
  rcases Option.or_eq_some_iff.mp h with h | ⟨-, h⟩
  · exact Text.isWord_of_mem_wordAfter? h c hc
  · exact Text.isWord_of_mem_bareWord? h c hc

theorem keepsLine_ofFiles {subkind directory extension : Text} (hdirectory : '\n' ∉ directory)
    (hextension : '\n' ∉ extension) : (ofFiles subkind directory extension).KeepsLine := by
  intro name hname
  simp [ofFiles, hdirectory, hextension, hname]

theorem keepsLine_builtIn {p : Text × ResourceFeature} (hp : p ∈ builtIn) : p.2.KeepsLine := by
  simp only [builtIn, List.mem_cons, List.not_mem_nil, or_false] at hp
  rcases hp with rfl | rfl | rfl
  · exact keepsLine_ofFiles (by decide) (by decide)
  · exact keepsLine_ofFiles (by decide) (by decide)
  · have hpath : '\n' ∉ "res/values/strings.xml".toList := by decide
    exact fun _ _ => hpath

end ResourceFeature

def Request.OnLine (req : Request) : Prop := '\n' ∉ req.token

namespace Engine

variable {e : Engine} {req : Request}

theorem feature?_keepsLine (he : ∀ f ∈ e.features, f.KeepsLine) {subkind : Text}
    {f : ResourceFeature} (hf : e.feature? subkind = some f) : f.KeepsLine := by
  rcases mem_features_of_feature? hf with ⟨hmem, -⟩ | rfl
  · exact he f hmem
  · exact ResourceFeature.keepsLine_ofFiles (by decide) (by decide)

/-- The class that a token of one line may stand for. -/
theorem feed_not_mem_classOf? (hreq : req.OnLine) {symbol : Text}
    (h : e.classOf? (e.classify req) = some symbol) : '\n' ∉ symbol := by
  have htoken : '\n' ∉ req.token.trim := mt Text.mem_of_mem_trim hreq
  have hrule := Classifier.rule_classify e.language e.features req e.document
  unfold classify at h
  generalize Classifier.classify e.language e.features req e.document = r at h hrule
  cases hrule with
  | internalCall | variableUse | symbol =>
    obtain rfl := Option.some.inj h
    exact htoken
  | externalCall =>
    obtain ⟨-, hword⟩ := Option.filter_eq_some_iff.mp h
    exact feed_not_mem_of_isWord_or [] (fun c hc => .inl (mem_of_isWordRun hword c hc))
      (by decide)
  | primitive | resource | menu | importLine | unclassified => cases h

/-- The link that answers a request for a token of one line holds no line feed where the address of
the page and the root segment hold none. -/
theorem feed_not_mem_url (hreq : req.OnLine) (hpage : '\n' ∉ e.document.url)
    (hroot : '\n' ∉ e.settings.rootSegment) (he : ∀ f ∈ e.features, f.KeepsLine) {url : Text}
    (hurl : (e.resolve req).target.url = some url) : '\n' ∉ url := by
  have hqualified {name : Text} (hname : isQualifiedName name) : '\n' ∉ name :=
    feed_not_mem_of_isWord_or ['.']
      (fun c hc => by simpa using mem_of_isQualifiedName hname c hc) (by decide)
  have hclass := @feed_not_mem_classOf? e req hreq
  have hleads := e.resolve_leads req
  generalize e.classify req = r at hleads hclass
  generalize (e.resolve req).target = t at hleads hurl
  cases hleads with
  | nowhere => cases hurl
  | method | onVariable | declared =>
    obtain rfl := Option.some.inj hurl
    exact Url.feed_not_mem_withLine hpage _
  | file hr hname h =>
    obtain rfl := Option.some.inj hurl
    exact ImportRules.feed_not_mem_fileUrl? hpage
      (ImportRules.feed_not_mem_fullName? (hclass hr) hname) h
  | imported hname h =>
    obtain rfl := Option.some.inj hurl
    exact ImportRules.feed_not_mem_fileUrl? hpage (hqualified hname) h
  | directory hname h =>
    obtain rfl := Option.some.inj hurl
    exact ImportRules.feed_not_mem_directoryUrl? hpage (hqualified hname) h
  | resource hf hname =>
    obtain rfl := Option.some.inj hurl
    exact feed_not_mem_resourceUrl hpage hroot
      (feature?_keepsLine he hf _ (ResourceFeature.feed_not_mem_name? hname))

end Engine

theorem Resolution.feed_not_mem_refine {r : Resolution}
    (hr : ∀ url, r.target.url = some url → '\n' ∉ url) (t : Text) :
    ∀ url, (r.refine t).target.url = some url → '\n' ∉ url := by
  unfold refine
  split
  · next f url _ hurl =>
    split
    · rintro _ h
      obtain rfl := Option.some.inj h
      exact Url.feed_not_mem_withLine (hr url hurl) _
    · exact hr
  · exact hr

/-- On the way an answer is at most moved to another line, or given up. -/
theorem Navigator.EndsAs.feed_not_mem_url {r a : Resolution} (h : EndsAs r a)
    (hr : ∀ url, r.target.url = some url → '\n' ∉ url) :
    ∀ url, a.target.url = some url → '\n' ∉ url := by
  obtain ⟨b, hb, ha⟩ := h
  have hkept : ∀ url, b.target.url = some url → '\n' ∉ url := by
    rcases hb with rfl | ⟨t, rfl⟩
    · exact hr
    · exact Resolution.feed_not_mem_refine hr t
  rcases ha with rfl | rfl
  · exact hkept
  · exact fun _ h => nomatch h

end CodeNav
