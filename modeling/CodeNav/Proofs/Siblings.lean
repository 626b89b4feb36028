import CodeNav.Proofs.Repository

/-!
Files of the same package. Such a file lies beside the document's own one, but the address of the
document is cut where the path of the package occurs first. So the link leads to the sibling exactly
when the path does not occur before (`ImportRules.fileUrl?_sibling_iff`).
-/

namespace CodeNav

namespace Url

theorem dottedWords_of_not_mem {t : Text} (h : '.' ∉ t) : dottedWords t = [] := by
  induction t with
  | nil => rfl
  | cons c r ih =>
    obtain ⟨hc, hr⟩ := not_or.mp (mt List.mem_cons.mpr h)
    rw [dottedWords, ih hr]
    simp [Ne.symm hc]

theorem dottedWords_append {ext : Text} (hext : isWordRun ext) (file : Text) :
    ∃ ws, dottedWords (file ++ '.' :: ext) = ws ++ [ext] := by
  induction file with
  | nil =>
    refine ⟨[], ?_⟩
    have hdot : '.' ∉ ext := not_mem_of_not_isWord (by decide) hext
    rw [List.nil_append, dottedWords, dottedWords_of_not_mem hdot, takeWhile_of_isWordRun hext,
      head?_of_isWordRun hext]
    rfl
  | cons c file ih =>
    obtain ⟨ws, hws⟩ := ih
    rw [List.cons_append, dottedWords, hws]
    split
    · exact ⟨_ :: ws, rfl⟩
    · exact ⟨ws, rfl⟩

theorem extension?_eq_some {url dir file ext : Text} (hext : isWordRun ext) (hfile : '/' ∉ file)
    (hanchor : '#' ∉ url) (hquery : '?' ∉ url) (hurl : url = dir ++ "/" ++ file ++ "." ++ ext) :
    extension? url = some ext := by
  have hpath : Text.before '?' (stripAnchor url) = url := by
    rw [stripAnchor_eq_self hanchor]
    exact Text.before_of_not_mem hquery
  have hslash : '/' ∉ ext := not_mem_of_not_isWord (by decide) hext
  have htrim : Text.trimRightChar '/' url = url := by
    obtain ⟨t, c, rfl⟩ := (List.eq_nil_or_concat' ext).resolve_left (ne_nil_of_isWordRun hext)
    have hc : c ≠ '/' := by
      rintro rfl
      exact hslash (by simp)
    simp [Text.trimRightChar, hurl, hc]
  have hname : Text.afterLast '/' url = file ++ '.' :: ext := by
    have hcut : Text.cutLast? '/' url = some (dir, file ++ '.' :: ext) := by
      refine Text.cutLast?_eq_some_iff.mpr ⟨by simp [hurl], ?_⟩
      simp [hfile, hslash]
    rw [Text.afterLast, hcut]
    rfl
  obtain ⟨ws, hws⟩ := dottedWords_append hext file
  unfold extension?
  dsimp only
  rw [hpath, htrim, hname, hws, List.getLast?_concat]

end Url

namespace ImportRules

theorem swap_dot_of_isWordRun {name : Text} (h : isWordRun name) :
    Text.swap '.' '/' name = name := by
  have hsame : ∀ c ∈ name, (if c = '.' then '/' else c) = c := by
    intro c hc
    have hne : c ≠ '.' := fun hdot => not_mem_of_not_isWord (by decide) h (hdot ▸ hc)
    rw [if_neg hne]
  rw [Text.swap, List.map_congr_left hsame, List.map_id']

end ImportRules

/-- The directory of the package, as the end of an address. -/
def Document.directory (d : Document) : Text := "/" ++ Text.swap '.' '/' d.package

namespace ImportRules

variable {d : Document} {root extension symbol : Text}

/-- A class of the document's own package gets an address in that directory, below the place where
the address of the document is cut. -/
theorem fileUrl?_ownPackage_iff (hpackage : d.package ≠ []) (hsymbol : isWordRun symbol)
    (hanchor : '#' ∉ d.url) (hextension : Url.extension? d.url = some extension) :
    fileUrl? d (d.package ++ "." ++ symbol) 1 =
        some (root ++ d.directory ++ "/" ++ symbol ++ "." ++ extension ++ "#L1") ↔
      ∃ rest, Text.FirstBetween (d.directory ++ "/") d.url root rest := by
  have hpath : Text.swap '.' '/' (d.package ++ "." ++ symbol) =
      Text.swap '.' '/' d.package ++ "/" ++ symbol := by
    conv_rhs => rw [← swap_dot_of_isWordRun hsymbol]
    simp [Text.swap]
  have hline : Text.ofInt 1 = "1".toList := by decide
  rw [fileUrl?_eq_some_iff, Url.stripAnchor_eq_self hanchor, hpath, hline]
  constructor
  · rintro ⟨base, extension', hbase, hext, heq⟩
    obtain rfl := Option.some.inj (hextension.symm.trans hext)
    have hsame : root ++ (d.directory ++ "/" ++ symbol ++ "." ++ extension ++ "#L1") =
        base ++ (d.directory ++ "/" ++ symbol ++ "." ++ extension ++ "#L1") := by
      simpa [Document.directory] using heq
    obtain rfl := List.append_cancel_right hsame
    obtain @⟨_, rest, -, hcut⟩ | ⟨hnone, -, -⟩ | ⟨hnone, -⟩ := hbase
    · exact ⟨rest, hcut⟩
    all_goals exact absurd hnone hpackage
  · rintro ⟨rest, hcut⟩
    exact ⟨root, extension, .ofPackage hpackage hcut, hextension, by simp [Document.directory]⟩

/-- To a file in the directory of its package a class of this package is a sibling exactly when the
directory stands at no place of the address before its own, also not where the two overlap. -/
theorem fileUrl?_sibling_iff {file : Text} (hpackage : d.package ≠ [])
    (hsymbol : isWordRun symbol) (hextension : isWordRun extension) (hfile : '/' ∉ file)
    (hanchor : '#' ∉ d.url) (hquery : '?' ∉ d.url)
    (hurl : d.url = root ++ d.directory ++ "/" ++ file ++ "." ++ extension) :
    fileUrl? d (d.package ++ "." ++ symbol) 1 =
        some (root ++ d.directory ++ "/" ++ symbol ++ "." ++ extension ++ "#L1") ↔
      ¬d.directory ++ "/".toList <:+: root ++ d.directory := by
  have hext : Url.extension? d.url = some extension :=
    Url.extension?_eq_some hextension hfile hanchor hquery hurl
  have hown : d.url = root ++ (d.directory ++ "/") ++ (file ++ "." ++ extension) := by
    simp [hurl]
  have hfirst : Text.FirstBetween (d.directory ++ "/") d.url root (file ++ "." ++ extension) ↔
      ¬d.directory ++ "/".toList <:+: root ++ d.directory := by
    rw [hown]
    exact Text.firstBetween_concat_iff root _
  rw [fileUrl?_ownPackage_iff hpackage hsymbol hanchor hext, ← hfirst]
  constructor
  · rintro ⟨rest, hcut⟩
    exact ⟨hown, hcut.first⟩
  · exact fun hcut => ⟨_, hcut⟩

def settingsPage : Document :=
  .ofText "package com.app;"
    "https://github.com/o/app/blob/main/com.app/com/app/Settings.test.kt" "now"

theorem fileUrl?_sibling_settings :
    settingsPage.package ≠ [] ∧ isWordRun "Home" ∧ isWordRun "kt" ∧ '/' ∉ "Settings.test".toList ∧
      '#' ∉ settingsPage.url ∧ '?' ∉ settingsPage.url ∧
      settingsPage.url = "https://github.com/o/app/blob/main/com.app" ++ settingsPage.directory ++
        "/" ++ "Settings.test" ++ "." ++ "kt" ∧
      fileUrl? settingsPage "com.app.Home" 1 =
        some "https://github.com/o/app/blob/main/com.app/com/app/Home.kt#L1".toList := by
  have hpackage : settingsPage.package = "com.app".toList := by decide +kernel
  have hne : settingsPage.package ≠ [] := by
    rw [hpackage]
    decide
  have hsymbol : isWordRun "Home" := by decide +kernel
  have hextension : isWordRun "kt" := by decide +kernel
  have hfile : '/' ∉ "Settings.test".toList := by decide
  have hanchor : '#' ∉ settingsPage.url := by decide
  have hquery : '?' ∉ settingsPage.url := by decide
  have hurl : settingsPage.url = "https://github.com/o/app/blob/main/com.app" ++
      settingsPage.directory ++ "/" ++ "Settings.test" ++ "." ++ "kt" := by decide +kernel
  have hfirst : ¬settingsPage.directory ++ "/".toList <:+:
      "https://github.com/o/app/blob/main/com.app" ++ settingsPage.directory := by
    rw [Document.directory, hpackage]
    decide +kernel
  have hsibling :=
    (fileUrl?_sibling_iff hne hsymbol hextension hfile hanchor hquery hurl).mpr hfirst
  rw [Document.directory, hpackage] at hsibling
  exact ⟨hne, hsymbol, hextension, hfile, hanchor, hquery, hurl, hsibling⟩

/-- A page of a package that is named like the repository. -/
def repositoryPage : Document :=
  .ofText "package app\n" "https://github.com/o/app/blob/main/src/app/Main.kt" "now"

/-- The address is cut at the repository, and the link leaves it. -/
theorem fileUrl?_beside_repository :
    repositoryPage.package = "app".toList ∧
      repositoryPage.url = "https://github.com/o/app/blob/main/src" ++ repositoryPage.directory ++
        "/" ++ "Main" ++ "." ++ "kt" ∧
      fileUrl? repositoryPage "app.Home" 1 = some "https://github.com/o/app/Home.kt#L1".toList ∧
      "https://github.com/o/app/Home.kt#L1".toList ≠
        "https://github.com/o/app/blob/main/src" ++ repositoryPage.directory ++ "/" ++ "Home" ++
          "." ++ "kt" ++ "#L1" := by
  refine ⟨?_, ?_, ?_, ?_⟩
  all_goals decide +kernel

end ImportRules

end CodeNav
