import CodeNav.Proofs.Cuts
import CodeNav.Url

/-!
Anchors of addresses. The part before an anchor has no other one, and it alone counts: the line that
an address points at makes no difference to the file (`Url.stripAnchor_withLine`), to its plain
content or to its extension, and of two lines the later one counts.
-/

namespace CodeNav.Url

theorem stripAnchor_append {a : Text} (ha : '#' ∉ a) (b : Text) :
    stripAnchor (a ++ b) = a ++ stripAnchor b := by
  unfold stripAnchor Text.before
  rw [List.takeWhile_append_of_pos]
  intro c hc
  have hne : c ≠ '#' := fun heq => ha (heq ▸ hc)
  simpa using hne

theorem stripAnchor_eq_self {url : Text} (h : '#' ∉ url) : stripAnchor url = url :=
  Text.before_of_not_mem h

theorem not_mem_stripAnchor (url : Text) : '#' ∉ stripAnchor url := by
  intro h
  simpa using List.mem_takeWhile_imp h

theorem mem_of_mem_stripAnchor {url : Text} {c : Char} (h : c ∈ stripAnchor url) : c ∈ url :=
  (List.takeWhile_prefix _).subset h

/-- The anchor does not count for the file. -/
theorem stripAnchor_anchor (url anchor : Text) :
    stripAnchor (stripAnchor url ++ '#' :: anchor) = stripAnchor url := by
  have hanchor : stripAnchor ('#' :: anchor) = [] := rfl
  rw [stripAnchor_append (not_mem_stripAnchor url), hanchor, List.append_nil]

theorem stripAnchor_withLine (url : Text) (line : Int) :
    stripAnchor (withLine url line) = stripAnchor url := by
  rw [withLine, List.append_assoc]
  exact stripAnchor_anchor url ('L' :: Text.ofInt line)

/-- Of two anchors the later one counts. -/
theorem withLine_withLine (url : Text) (m n : Int) :
    withLine (withLine url m) n = withLine url n := by
  rw [withLine, stripAnchor_withLine, ← withLine]

example : withLine (withLine "b.kt#a#b" 3) 4 = "b.kt#L4".toList := by decide

theorem raw_withLine (url : Text) (line : Int) : raw (withLine url line) = raw url := by
  rw [raw, stripAnchor_withLine, raw]

/-- The extension does not depend on the anchor. -/
theorem extension?_stripAnchor (url : Text) : extension? (stripAnchor url) = extension? url := by
  unfold extension?
  rw [stripAnchor_eq_self (not_mem_stripAnchor url)]

theorem extension?_withLine (url : Text) (line : Int) :
    extension? (withLine url line) = extension? url := by
  rw [← extension?_stripAnchor (withLine url line), stripAnchor_withLine, extension?_stripAnchor]

end CodeNav.Url
