import CodeNav.Proofs.Repository

/-!
Resources of a source set. The address of a page is cut at the first of its segments that is the
root segment. So resources are looked up beside the page's own sources exactly when no name before
is called like the root: no directory, but neither the owner, the repository nor the branch
(`resourceUrl_sourceSet_iff`).
-/

namespace CodeNav

/-- Resources are looked up where a root segment stands exactly when no segment before is called
like it, and no anchor begins before it. -/
theorem resourceUrl_eq_iff {root : Text} (hslash : '/' ∉ root) (hanchor : '#' ∉ root)
    (base rest path : Text) :
    resourceUrl (base ++ '/' :: (root ++ '/' :: rest)) root path =
        base ++ '/' :: (root ++ '/' :: path) ↔
      '#' ∉ base ∧ root ∉ (Text.parts '/' base).tail := by
  obtain ⟨found, hfound, htarget⟩ :=
    exists_resourceRoot (base ++ '/' :: (root ++ '/' :: rest)) root path
  rw [Text.trimChar_of_not_mem hslash] at hfound htarget
  rw [htarget, List.append_left_inj]
  by_cases hbase : '#' ∈ base
  · -- The part that is found ends before the anchor.
    refine iff_of_false (fun heq => ?_) (fun h => h.1 hbase)
    rw [← heq] at hbase
    exact Url.not_mem_stripAnchor _ (hfound.isPrefix.subset hbase)
  · have hurl : Url.stripAnchor (base ++ '/' :: (root ++ '/' :: rest)) =
        base ++ '/' :: (root ++ ['/']) ++ Url.stripAnchor rest := by
      rw [← Url.stripAnchor_append (by simp [hbase, hanchor])]
      simp
    rw [hurl] at hfound
    obtain ⟨b, hcut⟩ := hfound.firstBetween ⟨base, Url.stripAnchor rest, rfl⟩
    rw [← Text.firstBetween_segment_iff hslash base (Url.stripAnchor rest)]
    constructor
    · rintro rfl
      have hrest : b = Url.stripAnchor rest := by simpa using hcut.eq.symm
      exact ⟨hbase, hrest ▸ hcut⟩
    · rintro ⟨-, hfirst⟩
      exact (hcut.unique hfirst).1

/-- The segments that stand before the path of a file in its address. -/
theorem Url.parts_views {owner repo ref : Text} (howner : '/' ∉ owner) (hrepo : '/' ∉ repo)
    (href : '/' ∉ ref) :
    Text.parts '/' (views owner repo ++ '/' :: ref) =
      ["https:".toList, [], "github.com".toList, owner, repo, "blob".toList, ref] := by
  rw [views_append]
  have hparts {a : Text} (ha : '/' ∉ a) (b : Text) :
      Text.parts '/' (a ++ '/' :: b) = a :: Text.parts '/' b := by
    rw [Text.parts_append, Text.parts_of_not_mem ha]
    rfl
  rw [hparts (by decide), hparts (by decide), hparts (by decide), hparts howner, hparts hrepo,
    hparts (by decide), Text.parts_of_not_mem href]

/-- A source set lies in a directory of the repository, and the segments before it are the names in
the address and the directories of the repository. -/
theorem Url.exists_module {owner repo ref modules : Text} (howner : '/' ∉ owner)
    (hrepo : '/' ∉ repo) (href : '/' ∉ ref) (hmodules : modules = [] ∨ ∃ dir, modules = dir ++ "/")
    (hroot : "main".toList ∉ Text.parts '/' modules) :
    ∃ base, views owner repo ++ "/" ++ ref ++ "/" ++ modules = base ++ "/" ∧
      ("main".toList ∉ (Text.parts '/' base).tail ↔
        owner ≠ "main" ∧ repo ≠ "main" ∧ ref ≠ "main") := by
  have hnames : "main".toList ∉ (Text.parts '/' (views owner repo ++ '/' :: ref)).tail ↔
      owner ≠ "main" ∧ repo ≠ "main" ∧ ref ≠ "main" := by
    rw [parts_views howner hrepo href]
    simp [@eq_comm Text owner, @eq_comm Text repo, @eq_comm Text ref]
  rcases hmodules with rfl | ⟨dir, rfl⟩
  · exact ⟨views owner repo ++ '/' :: ref, by simp, hnames⟩
  · have hdir : "main".toList ∉ Text.parts '/' dir := by
      intro hmem
      exact hroot (Text.parts_append '/' dir [] ▸ List.mem_append_left _ hmem)
    refine ⟨views owner repo ++ '/' :: ref ++ '/' :: dir, by simp, ?_⟩
    rw [Text.parts_append, List.tail_append_of_ne_nil (Text.parts_ne_nil '/' _), List.mem_append,
      not_or, and_iff_left hdir]
    exact hnames

/-- A page of a source set finds its resources in the same set exactly when neither owner nor
repository nor branch are called like it, as no directory before it is. -/
theorem resourceUrl_sourceSet_iff {owner repo ref modules : Text} (howner : '/' ∉ owner)
    (hrepo : '/' ∉ repo) (href : '/' ∉ ref)
    (hmodules : modules = [] ∨ ∃ dir, modules = dir ++ "/")
    (hroot : "main".toList ∉ Text.parts '/' modules) (rest path : Text) :
    resourceUrl (Url.views owner repo ++ "/" ++ ref ++ "/" ++ modules ++ "main/" ++ rest) "main"
        path = Url.views owner repo ++ "/" ++ ref ++ "/" ++ modules ++ "main/" ++ path ↔
      '#' ∉ Url.views owner repo ++ "/" ++ ref ++ "/" ++ modules ∧ owner ≠ "main" ∧
        repo ≠ "main" ∧ ref ≠ "main" := by
  obtain ⟨base, hbase, hnames⟩ := Url.exists_module howner hrepo href hmodules hroot
  have hsegment (t : Text) : base ++ "/" ++ "main/" ++ t = base ++ '/' :: ("main" ++ '/' :: t) := by
    simp
  have hanchor : '#' ∉ base ++ "/" ↔ '#' ∉ base := by simp
  rw [hbase, hsegment, hsegment, hanchor, ← hnames]
  exact resourceUrl_eq_iff (by decide) (by decide) base rest path

/-- Names that the root segment is only a part of do not matter, and neither does a second root. -/
theorem resourceUrl_sourceSet_iff_module :
    '/' ∉ "domains".toList ∧ '/' ∉ "main.a".toList ∧ '/' ∉ "domain".toList ∧
      (∃ dir : Text, "main2/".toList = dir ++ "/") ∧
      "main".toList ∉ Text.parts '/' "main2/" ∧
      let sources := "https://github.com/domains/main.a/blob/domain/main2/main/".toList
      resourceUrl (sources ++ "java/main/App.kt#L3") "main" "res/layout/home.xml" =
        sources ++ "res/layout/home.xml" := by
  have howner : '/' ∉ "domains".toList := by decide
  have hrepo : '/' ∉ "main.a".toList := by decide
  have href : '/' ∉ "domain".toList := by decide
  have hmodules : ∃ dir : Text, "main2/".toList = dir ++ "/" := ⟨"main2", rfl⟩
  have hroot : "main".toList ∉ Text.parts '/' "main2/" := by decide
  have hnames : '#' ∉ Url.views "domains" "main.a" ++ "/" ++ "domain" ++ "/" ++ "main2/" ∧
      "domains".toList ≠ "main" ∧ "main.a".toList ≠ "main" ∧ "domain".toList ≠ "main" := by decide
  have hlink := (resourceUrl_sourceSet_iff howner hrepo href (.inr hmodules) hroot
    "java/main/App.kt#L3" "res/layout/home.xml").mpr hnames
  have hbase : Url.views "domains" "main.a" ++ "/" ++ "domain" ++ "/" ++ "main2/" ++ "main/" =
      "https://github.com/domains/main.a/blob/domain/main2/main/".toList := by decide +kernel
  rw [hbase] at hlink
  exact ⟨howner, hrepo, href, hmodules, hroot, hlink⟩

/-- On a branch that is called like the root segment the resources are looked up at the top of the
repository. -/
theorem resourceUrl_of_branch :
    "main".toList ∉ Text.parts '/' "app/src/" ∧ "main".toList ∉ Text.parts '/' "java/Main.kt" ∧
      resourceUrl "https://github.com/o/r/blob/main/app/src/main/java/Main.kt" "main"
          "res/layout/home.xml" =
        "https://github.com/o/r/blob/main/res/layout/home.xml".toList ∧
      resourceUrl "https://github.com/o/r/blob/main/app/src/main/java/Main.kt" "main"
          "res/layout/home.xml" ≠
        "https://github.com/o/r/blob/main/app/src/main/res/layout/home.xml".toList := by
  decide +kernel

end CodeNav
