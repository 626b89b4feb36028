import CodeNav.Proofs.Anchors
import CodeNav.Proofs.Parts
import CodeNav.Resource
import Mathlib.Data.List.DropRight

namespace CodeNav

namespace Text

variable {c : Char} {t : Text}

theorem trimChar_of_not_mem (h : c ∉ t) : trimChar c t = t := by
  have hdrop : ∀ u : Text, c ∉ u → u.dropWhile (· == c) = u := by
    intro u hu
    cases u with
    | nil => rfl
    | cons d u =>
      have hne : d ≠ c := fun hd => hu (hd ▸ List.mem_cons_self)
      simp [hne]
  rw [trimChar, hdrop t h, hdrop _ (by simpa using h), List.reverse_reverse]

theorem head?_trimChar (c : Char) (t : Text) : (trimChar c t).head? ≠ some c := by
  intro h
  have hpre : trimChar c t <+: t.dropWhile (· == c) := List.rdropWhile_prefix _ _
  obtain ⟨r, hr⟩ := List.head?_eq_some_iff.mp h
  obtain ⟨u, hu⟩ := hpre
  rw [hr] at hu
  have hhead : (t.dropWhile (· == c)).head? = some c := by
    rw [← hu]
    rfl
  -- What is left at the front is the character that stopped the dropping.
  have hfirst := List.head?_dropWhile_not (· == c) t
  simp [hhead] at hfirst

/-- Nothing is left of a text exactly when it holds no other character. -/
theorem trimChar_eq_nil_iff : trimChar c t = [] ↔ ∀ x ∈ t, x = c := by
  have hright : trimChar c t = [] ↔ ∀ x ∈ t.dropWhile (· == c), (x == c) = true :=
    List.rdropWhile_eq_nil_iff
  rw [hright]
  constructor
  · intro h
    have hnil : t.dropWhile (· == c) = [] := by
      have hfirst := List.head?_dropWhile_not (· == c) t
      cases hrest : t.dropWhile (· == c) with
      | nil => rfl
      | cons x r =>
        rw [hrest] at h hfirst
        simp [h x List.mem_cons_self] at hfirst
    simpa using List.dropWhile_eq_nil_iff.mp hnil
  · intro h x hx
    simpa using h x (List.dropWhile_sublist _ |>.subset hx)

theorem trimChar_trimChar_eq_nil_iff : trimChar c (trimChar c t) = [] ↔ trimChar c t = [] := by
  refine ⟨fun h => ?_, fun h => by rw [h]; rfl⟩
  cases hrest : trimChar c t with
  | nil => rfl
  | cons x r =>
    have hx : x = c := trimChar_eq_nil_iff.mp h x (by simp [hrest])
    exact absurd (by simp [hrest, hx]) (head?_trimChar c t)

end Text

/-- The part of an address that resources are looked up behind: what stands before the first
occurrence of the root segment or, where there is none, before the last slash. -/
inductive ResourceRoot (segment url : Text) : Text → Prop where
  | segment {base rest : Text}
      (hcut : Text.FirstBetween ('/' :: (segment ++ ['/'])) url base rest) :
      ResourceRoot segment url base
  | directory {base file : Text} (hnone : ¬ '/' :: (segment ++ ['/']) <:+: url)
      (hurl : url = base ++ '/' :: file) (hfile : '/' ∉ file) : ResourceRoot segment url base
  | whole (hnone : ¬ '/' :: (segment ++ ['/']) <:+: url) (hurl : '/' ∉ url) :
      ResourceRoot segment url url

/-- The root segment counts without the slashes around it. -/
theorem exists_resourceRoot (url root path : Text) :
    ∃ base, ResourceRoot (Text.trimChar '/' root) (Url.stripAnchor url) base ∧
      resourceUrl url root path = base ++ '/' :: (Text.trimChar '/' root ++ '/' :: path) := by
  have hsegment : "/" ++ Text.trimChar '/' root ++ "/" =
      '/' :: (Text.trimChar '/' root ++ ['/']) := rfl
  unfold resourceUrl
  dsimp only
  rw [hsegment]
  cases hcut : Text.cut? ('/' :: (Text.trimChar '/' root ++ ['/'])) (Url.stripAnchor url) with
  | some p =>
    have hfirst : Text.FirstBetween _ _ p.1 p.2 := Text.firstBetween_of_cut? hcut
    exact ⟨p.1, .segment hfirst, by simp⟩
  | none =>
    have hnone : ¬ '/' :: (Text.trimChar '/' root ++ ['/']) <:+: Url.stripAnchor url := by
      rintro ⟨a, b, heq⟩
      have hsome := Text.cut?_isSome_of_eq heq.symm
      rw [hcut] at hsome
      cases hsome
    refine ⟨Text.beforeLast '/' (Url.stripAnchor url), ?_, by simp⟩
    rcases Text.exists_last_cut '/' (Url.stripAnchor url) with hurl | ⟨a, b, hurl, hb⟩
    · rw [Text.beforeLast_of_not_mem hurl]
      exact .whole hnone hurl
    · rw [hurl] at hnone ⊢
      rw [Text.beforeLast_append_cons hb]
      exact .directory hnone rfl hb

namespace ResourceRoot

variable {segment url base : Text}

theorem isPrefix (h : ResourceRoot segment url base) : base <+: url := by
  cases h with
  | segment hcut => exact ⟨_, by rw [hcut.eq, List.append_assoc]⟩
  | directory _ hurl _ => exact ⟨_, hurl.symm⟩
  | whole => exact List.prefix_rfl

theorem firstBetween (h : ResourceRoot segment url base)
    (hmem : '/' :: (segment ++ ['/']) <:+: url) :
    ∃ rest, Text.FirstBetween ('/' :: (segment ++ ['/'])) url base rest := by
  cases h with
  | segment hcut => exact ⟨_, hcut⟩
  | directory hnone | whole hnone => exact absurd hmem hnone

end ResourceRoot

/-- A beginning of a text has another one in it, or ends before that one's last character. -/
theorem Text.prefix_of_concat_prefix {p t u : Text} {c : Char} (h : t ++ [c] <+: u) (hp : p <+: u) :
    t ++ [c] <+: p ∨ p <+: t := by
  rcases List.prefix_or_prefix_of_prefix h hp with h | h
  · exact .inl h
  · rcases List.prefix_concat_iff.mp h with rfl | h
    · exact .inl List.prefix_rfl
    · exact .inr h

/-- The beginning of an address that names its host. -/
def Url.origin (scheme host : Text) : Text := scheme ++ "://" ++ host ++ "/"

/-- The host stands before any anchor. -/
theorem Url.origin_prefix_stripAnchor {scheme host url : Text} (hscheme : '#' ∉ scheme)
    (hhost : '#' ∉ host) (h : origin scheme host <+: url) :
    origin scheme host <+: stripAnchor url := by
  obtain ⟨path, rfl⟩ := h
  rw [stripAnchor_append (by simp [origin, hscheme, hhost])]
  exact List.prefix_append _ _

section Origin

variable {scheme host segment url base : Text} (hscheme : '/' ∉ scheme) (hhost : '/' ∉ host)

include hscheme hhost

/-- Between slashes before the end of the host stands nothing. -/
theorem Url.eq_nil_of_segment_origin
    (h : '/' :: (segment ++ ['/']) <:+: scheme ++ "://" ++ host) : segment = [] := by
  have hslashes : List.count '/' (scheme ++ "://" ++ host) = 2 := by
    have hcolon : List.count '/' "://".toList = 2 := by decide
    rw [List.count_append, List.count_append, hcolon, List.count_eq_zero_of_not_mem hscheme,
      List.count_eq_zero_of_not_mem hhost]
  have hnot : '/' ∉ segment := by
    have hle := h.sublist.count_le '/'
    rw [hslashes] at hle
    refine List.count_eq_zero.mp ?_
    simp at hle
    omega
  have hparts : Text.parts '/' (scheme ++ "://" ++ host) = [scheme ++ ":", [], host] := by
    have heq : scheme ++ "://" ++ host = scheme ++ ":" ++ '/' :: ([] ++ '/' :: host) := by simp
    rw [heq, Text.parts_append, Text.parts_append, Text.parts_of_not_mem (by simp [hscheme]),
      Text.parts_of_not_mem hhost]
    rfl
  have hmem := (Text.infix_iff_mem_parts hnot).mp h
  rw [hparts] at hmem
  simpa using hmem

/-- A root segment that is not empty is looked for behind the host. -/
theorem ResourceRoot.origin_isPrefix (hne : segment ≠ []) (horigin : Url.origin scheme host <+: url)
    (h : ResourceRoot segment url base) :
    Url.origin scheme host <+: base ++ '/' :: (segment ++ ['/']) := by
  cases h with
  | @segment _ rest hcut =>
    have hfront : base ++ '/' :: (segment ++ ['/']) <+: url := ⟨rest, hcut.eq.symm⟩
    refine (Text.prefix_of_concat_prefix horigin hfront).resolve_right fun hinner => hne ?_
    exact Url.eq_nil_of_segment_origin hscheme hhost ((List.suffix_append base _).isInfix.trans
      hinner.isInfix)
  | @directory _ file _ hurl hfile =>
    have hfront : base ++ ['/'] <+: url := ⟨file, by simp [hurl]⟩
    rcases Text.prefix_of_concat_prefix horigin hfront with h | ⟨inner, hinner⟩
    · exact h.trans ⟨segment ++ ['/'], by simp⟩
    · -- The slash behind the host would stand in the name of the file.
      obtain ⟨rest, hrest⟩ := horigin
      have hsame : base ++ '/' :: (inner ++ '/' :: rest) = base ++ '/' :: file := by
        rw [← hurl, ← hrest, Url.origin, ← hinner]
        simp
      have hfile' : inner ++ '/' :: rest = file := by simpa using hsame
      exact absurd (by simp [← hfile']) hfile
  | whole _ hurl => exact absurd (horigin.subset (by simp [Url.origin])) hurl

omit hhost in
/-- An empty root segment is found in front of the host. -/
theorem ResourceRoot.eq_of_nil (horigin : Url.origin scheme host <+: url)
    (h : ResourceRoot [] url base) : base = scheme ++ ":" := by
  obtain ⟨rest, hrest⟩ := horigin
  have hfirst : Text.FirstBetween ('/' :: ([] ++ ['/'])) url (scheme ++ ":")
      (host ++ '/' :: rest) := by
    have heq : url = scheme ++ ":" ++ '/' :: ([] ++ ['/']) ++ (host ++ '/' :: rest) := by
      simp [← hrest, Url.origin]
    rw [heq, Text.firstBetween_segment_iff List.not_mem_nil, Text.parts_of_not_mem]
    · exact List.not_mem_nil
    · simp [hscheme]
  obtain ⟨_, hcut⟩ := h.firstBetween ⟨_, _, hfirst.eq.symm⟩
  exact (hcut.unique hfirst).1

/-- Resources have the host of the page exactly when the root segment is more than slashes, or the
path of the resource names the host again. -/
theorem origin_prefix_resourceUrl_iff (horigin : Url.origin scheme host <+: Url.stripAnchor url)
    (root path : Text) : Url.origin scheme host <+: resourceUrl url root path ↔
      Text.trimChar '/' root ≠ [] ∨ host ++ ['/'] <+: path := by
  obtain ⟨base, hbase, htarget⟩ := exists_resourceRoot url root path
  rw [htarget]
  by_cases hempty : Text.trimChar '/' root = []
  · rw [hempty] at hbase ⊢
    obtain rfl := hbase.eq_of_nil hscheme horigin
    have hfront : Url.origin scheme host = scheme ++ "://" ++ (host ++ ['/']) := by
      simp [Url.origin]
    have hlink : scheme ++ ":" ++ '/' :: ([] ++ '/' :: path) = scheme ++ "://" ++ path := by simp
    rw [hfront, hlink, List.prefix_append_right_inj]
    simp
  · refine iff_of_true ?_ (.inl hempty)
    refine (hbase.origin_isPrefix hscheme hhost hempty horigin).trans ⟨path, by simp⟩

end Origin

end CodeNav
