import CodeNav.Proofs.Bindings
import CodeNav.Proofs.Lowering

/-!
Empty lines at the front of a text. They move every line down (`Document.lowered_behindFeeds`), and
a search of the whole text finds the same behind them, although its match may start on one of them
(`Pattern.FrontShown.search?_feed`). So answers follow the text: an anchor on the page names the
line that far down, and nothing else changes.
-/

namespace CodeNav

namespace Text

def behindFeeds (k : Nat) (t : Text) : Text := List.replicate k '\n' ++ t

theorem lines_behindFeeds (k : Nat) (t : Text) :
    lines (t.behindFeeds k) = List.replicate k [] ++ lines t := by
  induction k with
  | zero => rfl
  | succ k ih =>
    have hfeed : t.behindFeeds (k + 1) = '\n' :: t.behindFeeds k := rfl
    rw [hfeed, lines_feed, ih]
    rfl

/-- What does not notice one line feed in front does not notice any number of them. -/
theorem eq_behindFeeds {α : Type} {f : Text → α} (hf : ∀ t, f ('\n' :: t) = f t) (k : Nat)
    (t : Text) : f (t.behindFeeds k) = f t := by
  induction k with
  | zero => rfl
  | succ k ih => exact (hf _).trans ih

end Text

namespace CodeLine

theorem numberedFrom_add (n : Int) (k : Nat) (ts : List Text) :
    numberedFrom (n + k) ts = (numberedFrom n ts).map (·.lowered k) := by
  induction ts generalizing n with
  | nil => rfl
  | cons t ts ih =>
    have hnext : n + (k : Int) + 1 = n + 1 + k := by omega
    rw [numberedFrom, hnext, ih]
    rfl

theorem numberedFrom_append (n : Int) (ts us : List Text) :
    numberedFrom n (ts ++ us) = numberedFrom n ts ++ numberedFrom (n + ts.length) us := by
  induction ts generalizing n with
  | nil =>
    rw [List.length_nil, Int.natCast_zero, Int.add_zero]
    rfl
  | cons t ts ih =>
    have hnext : n + ((t :: ts).length : Int) = n + 1 + ts.length := by
      rw [List.length_cons]
      omega
    rw [List.cons_append, numberedFrom, ih, hnext]
    rfl

end CodeLine

/-- An empty line declares neither a package nor an import. -/
theorem Imports.ofText_feed (t : Text) : ofText ('\n' :: t) = ofText t := by
  have hpackage : packageName? [] = none := by decide
  have himport : ImportStatement.ofLine? [] = none := by decide
  unfold ofText
  rw [Text.lines_feed, List.findSome?_cons, hpackage, List.filterMap_cons, himport]

namespace Pattern

/-- With nothing behind the line, what follows keeps the same. -/
theorem Follows.map_captured {shift total : Nat} {o o' : Option Place}
    (h : Follows [] shift total o o') : o.map (·.captured) = o'.map (·.captured) := by
  cases o with
  | none => rw [show o' = none from h]
  | some e =>
    obtain ⟨e', rfl, he⟩ := h (Nat.not_lt_zero _)
    exact congrArg some he.captured

theorem searchFrom?_of_none {p : Pattern} {b b' : Option Char} {t : Text}
    (h : p.run some { previous := b, rest := t } = none)
    (h' : p.run some { previous := b', rest := t } = none) :
    p.searchFrom? b t = p.searchFrom? b' t := by
  cases t with
  | nil => exact h.trans h'.symm
  | cons c t => rw [searchFrom?_cons, searchFrom?_cons, h, h']

variable {p : Pattern}

/-- A search for what shows at its front passes the line feed. -/
theorem search?_feed_of_startsShown (hlocal : p.IsLocal) (hshown : p.StartsShown) (t : Text) :
    (p.search? ('\n' :: t)).map (·.captured) = (p.search? t).map (·.captured) := by
  have hnone : p.run some { previous := none, rest := '\n' :: t } = none :=
    run_eq_none_of_isBlank hshown (show CharClass.blank.holds '\n' = true by decide)
  have hends : ∀ c, some '\n' = some c → isLineEnd c := fun c hc => Option.some.inj hc ▸ rfl
  have hnothing : ∀ c, [].head? = some c → isLineEnd c := fun c hc => by cases hc
  have hfollows : ∃ total,
      Follows [] 0 total (p.searchFrom? (some '\n') (t ++ [])) (p.searchFrom? none t) :=
    searchFrom?_follows hlocal hnothing (.inr ⟨rfl, hends⟩)
  obtain ⟨total, hfollows⟩ := hfollows
  rw [List.append_nil] at hfollows
  unfold search?
  rw [searchFrom?_cons, hnone]
  exact hfollows.map_captured

/-- A match that may start with blanks takes the line feed with it, and keeps the same. -/
theorem search?_feed_of_indented (body : Pattern) (hlocal : body.IsLocal)
    (hshown : body.StartsShown)
    (hrun : ∀ k q, p.run k q = if q.isLineStart then (seq (many .blank) body).run k q else none)
    (t : Text) : (p.search? ('\n' :: t)).map (·.captured) = (p.search? t).map (·.captured) := by
  have hnothing : ∀ c, [].head? = some c → isLineEnd c := fun c hc => by cases hc
  have hends : ∀ c, some '\n' = some c → isLineEnd c := fun c hc => Option.some.inj hc ▸ rfl
  -- The match from the line feed on, and the one from the text behind it.
  have hfeed : (p.run some { previous := none, rest := '\n' :: t }).map (·.captured) =
      (p.run some { previous := none, rest := t }).map (·.captured) := by
    have hblank : Text.isBlank ['\n'] := by decide
    have hfollows := run_indented_follows t hlocal hshown hnothing hblank (b := none) hends
    rw [List.append_nil] at hfollows
    rw [hrun, hrun]
    exact hfollows.map_captured
  have hbehind : (p.run some { previous := some '\n', rest := t }).map (·.captured) =
      (p.run some { previous := none, rest := t }).map (·.captured) := by
    have hseq : (seq (many .blank) body).IsLocal := ⟨trivial, hlocal⟩
    have hplace : Place.Mirrors [] 0 t.length { previous := some '\n', rest := t }
        { previous := none, rest := t } :=
      ⟨(List.append_nil t).symm, rfl, rfl, .inr ⟨rfl, hends⟩, Nat.zero_add _⟩
    have hfollows := run_follows hseq hnothing continues_some hplace
    rw [hrun, hrun]
    exact hfollows.map_captured
  unfold search?
  cases hhere : p.run some { previous := none, rest := t } with
  | some m =>
    rw [hhere, Option.map_some] at hfeed
    obtain ⟨m', hm', hcaptured⟩ := Option.map_eq_some_iff.mp hfeed
    rw [searchFrom?_of_run hm', searchFrom?_of_run hhere]
    exact congrArg some hcaptured
  | none =>
    rw [hhere, Option.map_none, Option.map_eq_none_iff] at hfeed hbehind
    rw [searchFrom?_cons, hfeed]
    exact congrArg _ (searchFrom?_of_none hbehind hhere)

theorem FrontShown.search?_feed (hp : p.FrontShown) (t : Text) :
    (p.search? ('\n' :: t)).map (·.captured) = (p.search? t).map (·.captured) := by
  cases hp with
  | shown hlocal hshown => exact search?_feed_of_startsShown hlocal hshown t
  | indented body hlocal hshown hrun => exact search?_feed_of_indented body hlocal hshown hrun t

end Pattern

theorem Binding.declaredType?_feed (l : Language) {name : Text} (hname : isWordRun name)
    (t : Text) : declaredType? l name ('\n' :: t) = declaredType? l name t := by
  have hassigned : assignedFrom? l name ('\n' :: t) = (assignedFrom? l name t).map id := by
    apply assignedFrom?_map rfl
    intro p hp
    have hsearch := (l.frontShown_of_mem hname p hp).search?_feed t
    simpa only [Prod.map_id, List.map_id] using hsearch
  unfold declaredType?
  rw [Language.bareName_of_isWordRun hname, hassigned, Option.map_id, id]

theorem Document.lowered_behindFeeds (k : Nat) (t url a b : Text) :
    (ofText t url a).Lowered k (ofText (t.behindFeeds k) url b) := by
  refine ⟨rfl, ?_, ?_, ?_, ?_⟩
  · exact Text.eq_behindFeeds Imports.ofText_feed k t
  · refine ⟨CodeLine.numberedFrom 1 (List.replicate k []), ?_, ?_⟩
    · intro l hl
      obtain ⟨before, after, hlines, -⟩ := CodeLine.exists_of_mem_numberedFrom hl
      have hmem : l.text ∈ List.replicate k [] := by
        rw [hlines]
        exact List.mem_append_right _ List.mem_cons_self
      rw [List.eq_of_mem_replicate hmem]
      rfl
    · unfold ofText CodeLine.ofText
      dsimp only
      rw [Text.lines_behindFeeds, CodeLine.numberedFrom_append, List.length_replicate,
        CodeLine.numberedFrom_add]
  · intro l hl
    obtain ⟨before, -, -, hnumber⟩ := CodeLine.exists_of_mem_numberedFrom hl
    omega
  · intro l name hname
    exact Text.eq_behindFeeds (Binding.declaredType?_feed l hname) k t

/-- Anchors follow the text: behind `k` empty lines its page gets the same engine, and a click on it
is answered alike, but a line of the page is named by the number that is `k` higher. -/
theorem Engine.resolve_behindFeeds (k : Nat) (t url a b : Text) :
    (∀ xs s, open? xs s (.ofText (t.behindFeeds k) url b) =
        (open? xs s (.ofText t url a)).map
          (Option.map (·.showing (.ofText (t.behindFeeds k) url b)))) ∧
      ∀ (e : Engine) (req : Request), ((e.showing (.ofText t url a)).resolve req).Lowered url k
        ((e.showing (.ofText (t.behindFeeds k) url b)).resolve req) := by
  refine ⟨open?_showing rfl, fun e req => ?_⟩
  have hpage : (e.showing (.ofText t url a)).document.Lowered k
      (.ofText (t.behindFeeds k) url b) := Document.lowered_behindFeeds k t url a b
  exact resolve_lowered hpage req

/-- The third line of the page is its fifth behind two empty lines. -/
theorem Engine.resolve_behindFeeds_job :
    let e := Engine.assigningEngine
    let page := Document.ofText (e.document.text.behindFeeds 2) e.document.url "later"
    let here := e.resolve Engine.onJob
    let moved := (e.showing page).resolve Engine.onJob
    here.target = ⟨some "https://github.com/o/r/blob/main/Main.kt#L3".toList, false⟩ ∧
      moved.target = ⟨some "https://github.com/o/r/blob/main/Main.kt#L5".toList, false⟩ ∧
      here.Lowered e.document.url 2 moved := by
  intro e page here moved
  have hlowered := (Engine.resolve_behindFeeds 2 e.document.text e.document.url
    e.document.snapshot "later").2 e Engine.onJob
  have hhere : here.target =
      ⟨some "https://github.com/o/r/blob/main/Main.kt#L3".toList, false⟩ := by decide +kernel
  have hmoved : moved.target =
      ⟨some "https://github.com/o/r/blob/main/Main.kt#L5".toList, false⟩ := by decide +kernel
  exact ⟨hhere, hmoved, hlowered⟩

end CodeNav
