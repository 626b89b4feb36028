import CodeNav.Proofs.FileViews

namespace CodeNav.Url

variable {url other : Text} {v w : FileView}

theorem raw_of_fileView? (h : fileView? (stripAnchor url) = some v) :
    raw url = rawHost ++ "/" ++ v.owner ++ "/" ++ v.repo ++ "/" ++ v.rest := by
  rw [raw, h]

theorem raw_of_elsewhere (h : fileView? (stripAnchor url) = none) : raw url = stripAnchor url := by
  rw [raw, h]

/-- The parts of a view stand in its address. -/
theorem Shows.not_mem (h : Shows url v) {c : Char} (hc : c ∉ url) :
    c ∉ v.owner ∧ c ∉ v.repo ∧ c ∉ v.rest := by
  obtain ⟨s, -, host, -, more, -, rfl⟩ := h.eq
  simp only [viewFront, List.mem_append, not_or] at hc
  obtain ⟨⟨⟨⟨⟨-, howner⟩, -⟩, hrepo⟩, -⟩, hrest, -⟩ := hc
  exact ⟨howner, hrepo, hrest⟩

theorem not_mem_raw (url : Text) : '#' ∉ raw url := by
  cases h : fileView? (stripAnchor url) with
  | none =>
    rw [raw_of_elsewhere h]
    exact not_mem_stripAnchor url
  | some v =>
    obtain ⟨howner, hrepo, hrest⟩ := (Shows.of_fileView? h).not_mem (not_mem_stripAnchor url)
    have hhost : '#' ∉ rawHost := by decide
    rw [raw_of_fileView? h]
    simp [hhost, howner, hrepo, hrest]

/-- The host of plain content shows no views. -/
theorem fileView?_rawHost_append (path : Text) : fileView? (rawHost ++ path) = none := rfl

theorem fileView?_raw (url : Text) : fileView? (raw url) = none := by
  cases h : fileView? (stripAnchor url) with
  | none => rwa [raw_of_elsewhere h]
  | some v =>
    rw [raw_of_fileView? h]
    simp only [List.append_assoc]
    exact fileView?_rawHost_append _

/-- Plain content is its own plain content. -/
theorem raw_raw (url : Text) : raw (raw url) = raw url := by
  have hstrip : stripAnchor (raw url) = raw url := stripAnchor_eq_self (not_mem_raw url)
  rw [raw_of_elsewhere (by rw [hstrip, fileView?_raw]), hstrip]

/-- The first part of a path is read back from it. -/
theorem segment_append_inj {s t a b : Text} (hs : IsSegment s) (ht : IsSegment t)
    (h : s ++ '/' :: a = t ++ '/' :: b) : s = t ∧ a = b := by
  have hread := segment?_append hs a
  rw [h, segment?_append ht b] at hread
  simpa [eq_comm] using hread

theorem raw_eq_raw_iff (hv : fileView? (stripAnchor url) = some v)
    (hw : fileView? (stripAnchor other) = some w) :
    raw url = raw other ↔ v.owner = w.owner ∧ v.repo = w.repo ∧ v.rest = w.rest := by
  have hread := Shows.of_fileView? hv
  have hread' := Shows.of_fileView? hw
  have hparts (x : FileView) : rawHost ++ "/" ++ x.owner ++ "/" ++ x.repo ++ "/" ++ x.rest =
      (rawHost ++ "/") ++ (x.owner ++ '/' :: (x.repo ++ '/' :: x.rest)) := by
    simp
  rw [raw_of_fileView? hv, raw_of_fileView? hw, hparts, hparts, List.append_cancel_left_eq]
  constructor
  · intro h
    obtain ⟨howner, hpath⟩ := segment_append_inj hread.owner_segment hread'.owner_segment h
    exact ⟨howner, segment_append_inj hread.repo_segment hread'.repo_segment hpath⟩
  · rintro ⟨howner, hrepo, hrest⟩
    rw [howner, hrepo, hrest]

/-- The address of plain content has no anchor and is the one of its own plain content. Neither it
nor the extension depends on the line that an address points at, and two views of files have the
same plain content exactly when owner, repository and path are the same. -/
theorem raw_canonical (u v : Text) (n : Int) :
    '#' ∉ raw u ∧ raw (raw u) = raw u ∧ raw (withLine u n) = raw u ∧
      extension? (withLine u n) = extension? u ∧
      ∀ x y, fileView? (stripAnchor u) = some x → fileView? (stripAnchor v) = some y →
        (raw u = raw v ↔ x.owner = y.owner ∧ x.repo = y.repo ∧ x.rest = y.rest) :=
  ⟨not_mem_raw u, raw_raw u, raw_withLine u n, extension?_withLine u n,
    fun _ _ => raw_eq_raw_iff⟩

/-- A file by another name of the host, and by an address that goes on behind a line feed. -/
theorem raw_canonical_host :
    fileView? (stripAnchor "http://www.github.com/o/r/blob/main/A.kt#L3") =
        some ⟨"o", "r", "main/A.kt"⟩ ∧
      fileView? (stripAnchor "https://github.com/o/r/blob/main/A.kt\nB.kt") =
        some ⟨"o", "r", "main/A.kt"⟩ ∧
      raw "http://www.github.com/o/r/blob/main/A.kt#L3" =
        raw "https://github.com/o/r/blob/main/A.kt\nB.kt" := by
  have hview : fileView? (stripAnchor "http://www.github.com/o/r/blob/main/A.kt#L3") =
      some ⟨"o", "r", "main/A.kt"⟩ := by decide +kernel
  have hview' : fileView? (stripAnchor "https://github.com/o/r/blob/main/A.kt\nB.kt") =
      some ⟨"o", "r", "main/A.kt"⟩ := by decide +kernel
  obtain ⟨-, -, -, -, hsame⟩ := raw_canonical "http://www.github.com/o/r/blob/main/A.kt#L3"
    "https://github.com/o/r/blob/main/A.kt\nB.kt" 3
  exact ⟨hview, hview', (hsame _ _ hview hview').mpr ⟨rfl, rfl, rfl⟩⟩

end CodeNav.Url
